import Mathlib.Data.Int.Order.Basic
import Mathlib.Tactic.NormNum

/-!
# Machinery/Timeval — times as seconds and microseconds

A `Timeval` stands for an integer number of microseconds (`micros`), and each number has one
`Normalised` form.  `timercmp` compares seconds first and microseconds in case of a tie; on
normalised times that is the order of the integers (`timercmp_eq`).
-/

/-- `struct timeval`. -/
@[ext]
structure Timeval where
  tv_sec : ℤ
  tv_usec : ℤ
deriving DecidableEq, Repr

namespace Timeval

/-- The time as one number. -/
def micros (t : Timeval) : ℤ := t.tv_sec * 1000000 + t.tv_usec

/-- The microseconds are less than a second. -/
structure Normalised (t : Timeval) : Prop where
  nonneg : 0 ≤ t.tv_usec
  lt : t.tv_usec < 1000000

instance (t : Timeval) : Decidable t.Normalised :=
  decidable_of_iff (0 ≤ t.tv_usec ∧ t.tv_usec < 1000000) ⟨fun h => ⟨h.1, h.2⟩, fun h => ⟨h.1, h.2⟩⟩

/-- `timercmp` of `sys/time.h`, for any comparison. -/
def timercmp (a b : Timeval) (cmp : ℤ → ℤ → Bool) : Bool :=
  if a.tv_sec = b.tv_sec then cmp a.tv_usec b.tv_usec else cmp a.tv_sec b.tv_sec

/-- `timersub` of `sys/time.h`. -/
def timersub (a b : Timeval) : Timeval :=
  if a.tv_usec - b.tv_usec < 0 then
    ⟨a.tv_sec - b.tv_sec - 1, a.tv_usec - b.tv_usec + 1000000⟩
  else ⟨a.tv_sec - b.tv_sec, a.tv_usec - b.tv_usec⟩

variable {a b : Timeval}

/-- `timersub` subtracts exactly, carry or not. -/
theorem micros_timersub (a b : Timeval) : (timersub a b).micros = a.micros - b.micros := by
  rw [timersub]
  split <;> simp only [micros] <;> omega

/-- **Normalised times are compared as integers**, by any comparison that only looks at which is
less. -/
theorem timercmp_eq (ha : a.Normalised) (hb : b.Normalised) {cmp : ℤ → ℤ → Bool}
    (hcmp : ∀ {x y x' y' : ℤ}, (x < y ↔ x' < y') → (y < x ↔ y' < x') → cmp x y = cmp x' y') :
    timercmp a b cmp = cmp a.micros b.micros := by
  obtain ⟨ha0, ha1⟩ := ha
  obtain ⟨hb0, hb1⟩ := hb
  rw [timercmp]
  split <;> exact hcmp (by simp only [micros]; omega) (by simp only [micros]; omega)

/-- Times that can be written down are compared as numbers. -/
theorem timercmp_le (ha : a.Normalised) (hb : b.Normalised) :
    timercmp a b (· ≤ ·) = true ↔ a.micros ≤ b.micros := by
  rw [timercmp_eq ha hb fun _ h => decide_eq_decide.mpr (by omega), decide_eq_true_iff]

theorem timercmp_ge (ha : a.Normalised) (hb : b.Normalised) :
    timercmp a b (· ≥ ·) = true ↔ a.micros ≥ b.micros := by
  rw [timercmp_eq ha hb fun h _ => decide_eq_decide.mpr (by omega), decide_eq_true_iff]

end Timeval
