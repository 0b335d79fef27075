import Mathlib.Data.List.Count

/-!
# Machinery/Lifetime — a resource that is used and then released

The trace of what is done with one resource: uses, and releases.  It is in order where the release
comes once and last (`ReleasedOnce`).  Uses before it do not matter (`releasedOnce_append`).
-/

namespace Lifetime

variable {α : Type*} [DecidableEq α] {release : α} {trace uses rest : List α}

/-- The resource is released once, and nothing is done with it afterwards. -/
structure ReleasedOnce (release : α) (trace : List α) : Prop where
  once : trace.count release = 1
  last : ∀ pre post, trace = pre ++ release :: post → post = []

/-- A trace that releases once ends with that. -/
theorem releasedOnce_iff :
    ReleasedOnce release trace ↔ ∃ uses, trace = uses ++ [release] ∧ release ∉ uses := by
  constructor
  · intro h
    obtain ⟨uses, post, rfl⟩ := List.append_of_mem (List.count_pos_iff.mp (h.once ▸ Nat.one_pos))
    obtain rfl := h.last uses post rfl
    have hcount := h.once
    rw [List.count_append, List.count_singleton_self] at hcount
    exact ⟨uses, rfl, List.count_eq_zero.mp (by omega)⟩
  · rintro ⟨uses, rfl, huses⟩
    refine ⟨?_, fun pre post heq => ?_⟩
    · rw [List.count_append, List.count_singleton_self, List.count_eq_zero.mpr huses]
    · rcases List.eq_nil_or_concat post with hnil | ⟨post, y, rfl⟩
      · exact hnil
      · -- then the release would be among the uses
        rw [List.concat_eq_append, ← List.cons_append, ← List.append_assoc] at heq
        obtain ⟨rfl, -⟩ := List.append_inj' heq rfl
        exact absurd (by simp) huses

/-- Uses before the release do not matter. -/
theorem releasedOnce_append (huses : release ∉ uses) :
    ReleasedOnce release (uses ++ rest) ↔ ReleasedOnce release rest := by
  constructor
  · intro h
    refine ⟨?_, fun pre post heq => h.last (uses ++ pre) post (by rw [heq, List.append_assoc])⟩
    have hcount := h.once
    rwa [List.count_append, List.count_eq_zero.mpr huses, Nat.zero_add] at hcount
  · intro h
    obtain ⟨more, rfl, hmore⟩ := releasedOnce_iff.mp h
    refine releasedOnce_iff.mpr ⟨uses ++ more, (List.append_assoc ..).symm, fun hmem => ?_⟩
    exact (List.mem_append.mp hmem).elim huses hmore

theorem releasedOnce_singleton (release : α) : ReleasedOnce release [release] :=
  releasedOnce_iff.mpr ⟨[], rfl, List.not_mem_nil⟩

theorem not_releasedOnce_of_notMem (h : release ∉ trace) :
    ¬ ReleasedOnce release trace := by
  intro hr
  have hcount := hr.once
  rw [List.count_eq_zero.mpr h] at hcount
  exact absurd hcount (by decide)

/-- **What is done after the release is done with nothing.** -/
theorem not_releasedOnce_of_used (uses : List α) (x : α) :
    ¬ ReleasedOnce release (uses ++ [release, x]) := fun h =>
  absurd (h.last uses [x] rfl) (List.cons_ne_nil x [])

end Lifetime
