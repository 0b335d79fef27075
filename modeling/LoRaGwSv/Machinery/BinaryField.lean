import Mathlib.Algebra.Field.ZMod
import Mathlib.Data.BitVec
import Mathlib.RingTheory.AdjoinRoot

/-!
# Machinery/BinaryField — words as polynomials over the field of two elements

The bits of a word are the coefficients of a polynomial of degree less than its width, and `eval α`
is the value of that polynomial at `α`.  Adding is `xor`, and where `α ^ n` is the value of the word
`low`, a shift to the left with `low` added for the bit that leaves is the multiplication by `α`
(`eval_xtime`), so that shifts and additions multiply any two words (`eval_mul`).

At the root of `X ^ n + low` **every element of the ring is the value of exactly one word**
(`wordEquiv`): words under `xor` and `mul` are that ring.  Whether it is a field is then a question
about the powers of one word (`irreducible_modulus`).
-/

namespace BinaryField

open Polynomial

variable {n : ℕ} {F : Type*} [CommRing F] {α : F} {low x y : BitVec n}

/-- The value at `α`: the sum of the powers that the bits name. -/
def eval (α : F) (x : BitVec n) : F :=
  ∑ i ∈ Finset.range n, if x.getLsbD i then α ^ i else 0

@[simp] theorem eval_zero : eval α (0 : BitVec n) = 0 := by
  rw [eval]
  exact Finset.sum_eq_zero fun i _ => if_neg (by simp)

/-- The word with the lowest bit is the one. -/
theorem eval_one (hn : 0 < n) : eval α (1 : BitVec n) = 1 := by
  obtain ⟨m, rfl⟩ : ∃ m, n = m + 1 := ⟨n - 1, by omega⟩
  have htail : ∀ i ∈ Finset.range m,
      (if (1 : BitVec (m + 1)).getLsbD (i + 1) then α ^ (i + 1) else 0) = 0 := fun i _ =>
    if_neg (by simp)
  rw [eval, Finset.sum_range_succ', Finset.sum_eq_zero htail, zero_add,
    if_pos (by simp), pow_zero]

/-- A map of rings takes values to values. -/
theorem map_eval {G : Type*} [CommRing G] (φ : F →+* G) (x : BitVec n) :
    φ (eval α x) = eval (φ α) x := by
  rw [eval, map_sum, eval]
  refine Finset.sum_congr rfl fun i _ => ?_
  rw [apply_ite φ, map_pow, map_zero]

/-! ## Adding and shifting

The value of a word is taken in any ring of characteristic two with an element that is a root of the
modulus. -/

/-- The bit that leaves is the only one missing from the shifted word. -/
theorem eval_shiftLeft_one (x : BitVec n) :
    α * eval α x = eval α (x <<< 1) + if x.msb then α ^ n else 0 := by
  cases n with
  | zero => simp [eval, BitVec.eq_nil x]
  | succ m =>
    have hstay : ∀ i ∈ Finset.range m,
        (if (x <<< 1).getLsbD (i + 1) then α ^ (i + 1) else 0)
          = α * if x.getLsbD i then α ^ i else 0 := by
      intro i hi
      have hlt : i + 1 < m + 1 := Nat.succ_lt_succ (Finset.mem_range.mp hi)
      have hbit : (x <<< 1).getLsbD (i + 1) = x.getLsbD i := by
        rw [BitVec.getLsbD_shiftLeft, decide_eq_true hlt]
        simp
      rw [hbit, mul_ite, mul_zero, pow_succ']
    have hzero : (if (x <<< 1).getLsbD 0 then α ^ 0 else 0 : F) = 0 := if_neg (by simp)
    have hshifted : eval α (x <<< 1) = α * ∑ i ∈ Finset.range m,
        if x.getLsbD i then α ^ i else 0 := by
      rw [eval, Finset.sum_range_succ', Finset.sum_congr rfl hstay, hzero, add_zero,
        Finset.mul_sum]
    rw [hshifted, eval, Finset.sum_range_succ, mul_add, mul_ite, mul_zero, ← pow_succ',
      BitVec.msb_eq_getLsbD_last, Nat.add_sub_cancel]

section Ops

variable [Algebra (ZMod 2) F]

/-- Words are added bit by bit, as two is zero. -/
theorem eval_xor (x y : BitVec n) : eval α (x ^^^ y) = eval α x + eval α y := by
  rw [eval, eval, eval, ← Finset.sum_add_distrib]
  refine Finset.sum_congr rfl fun i _ => ?_
  rw [BitVec.getLsbD_xor]
  cases x.getLsbD i <;> cases y.getLsbD i
  · exact (add_zero 0).symm
  · exact (zero_add _).symm
  · exact (add_zero _).symm
  · exact (ZModModule.add_self _).symm

/-- Multiplication by the root. -/
def xtime (low x : BitVec n) : BitVec n := x <<< 1 ^^^ if x.msb then low else 0

/-- **`xtime` is multiplication by the root.** -/
theorem eval_xtime (hα : α ^ n = eval α low) (x : BitVec n) :
    eval α (xtime low x) = α * eval α x := by
  rw [xtime, eval_xor, eval_shiftLeft_one, apply_ite (eval α), eval_zero, hα]

/-- The product with the high `k` bits of `y`, the highest first. -/
def mulHigh (low x y : BitVec n) : ℕ → BitVec n
  | 0 => 0
  | k + 1 => xtime low (mulHigh low x y k) ^^^ if y.getLsbD (n - (k + 1)) then x else 0

/-- The product of two words, by shifting and adding. -/
def mul (low x y : BitVec n) : BitVec n := mulHigh low x y n

/-- The product with the high bits, by induction over their number. -/
theorem eval_mulHigh (hα : α ^ n = eval α low) (x y : BitVec n) {k : ℕ} (hk : k ≤ n) :
    eval α (mulHigh low x y k)
      = eval α x * ∑ i ∈ Finset.range k, if y.getLsbD (n - k + i) then α ^ i else 0 := by
  induction k with
  | zero => rw [mulHigh, eval_zero, Finset.range_zero, Finset.sum_empty, mul_zero]
  | succ k ih =>
    have hshift : ∀ i ∈ Finset.range k,
        (if y.getLsbD (n - (k + 1) + (i + 1)) then α ^ (i + 1) else 0)
          = α * if y.getLsbD (n - k + i) then α ^ i else 0 := by
      intro i _
      rw [show n - (k + 1) + (i + 1) = n - k + i by omega, mul_ite, mul_zero, pow_succ']
    rw [mulHigh, eval_xor, eval_xtime hα, ih (by omega), Finset.sum_range_succ',
      Finset.sum_congr rfl hshift, ← Finset.mul_sum, apply_ite (eval α), eval_zero, pow_zero,
      mul_add, mul_ite, mul_one, mul_zero, mul_left_comm]
    rfl

/-- **Shifts and additions multiply.** -/
theorem eval_mul (hα : α ^ n = eval α low) (x y : BitVec n) :
    eval α (mul low x y) = eval α x * eval α y := by
  rw [mul, eval_mulHigh hα x y le_rfl, Nat.sub_self]
  simp only [Nat.zero_add]
  rfl

/-- The power of a word. -/
def pow (low x : BitVec n) : ℕ → BitVec n
  | 0 => 1
  | k + 1 => mul low (pow low x k) x

theorem eval_pow (hα : α ^ n = eval α low) (hn : 0 < n) (x : BitVec n) (k : ℕ) :
    eval α (pow low x k) = eval α x ^ k := by
  induction k with
  | zero => rw [pow, eval_one hn, pow_zero]
  | succ k ih => rw [pow, eval_mul hα, ih, pow_succ]

end Ops

/-! ## The ring of words

The quotient of the polynomials by the modulus has one element for each word. -/

/-- `X ^ n + low`. -/
noncomputable def modulus (low : BitVec n) : (ZMod 2)[X] := X ^ n + eval X low

/-- The ring of the words of a polynomial. -/
abbrev WordRing (low : BitVec n) : Type := AdjoinRoot (modulus low)

/-- `X` in the ring. -/
noncomputable def root (low : BitVec n) : WordRing low := AdjoinRoot.root (modulus low)

theorem mk_X (low : BitVec n) : AdjoinRoot.mk (modulus low) X = root low := AdjoinRoot.mk_X

/-- The bits of a word are the coefficients of its polynomial. -/
theorem coeff_eval (x : BitVec n) (i : ℕ) :
    (eval X x : (ZMod 2)[X]).coeff i = if x.getLsbD i then 1 else 0 := by
  have hterm : ∀ j, (if x.getLsbD j then (X : (ZMod 2)[X]) ^ j else 0).coeff i
      = if i = j then (if x.getLsbD j then 1 else 0) else 0 := by
    intro j
    rw [apply_ite (fun p : (ZMod 2)[X] => p.coeff i), coeff_X_pow, coeff_zero]
    split_ifs <;> rfl
  rw [eval, finsetSum_coeff, Finset.sum_congr rfl fun j _ => hterm j, Finset.sum_ite_eq]
  by_cases hi : i < n
  · rw [if_pos (Finset.mem_range.mpr hi)]
  · rw [if_neg (mt Finset.mem_range.mp hi), if_neg]
    rw [BitVec.getLsbD_of_ge x i (not_lt.mp hi)]
    exact Bool.false_ne_true

theorem degree_eval_lt (x : BitVec n) : (eval X x : (ZMod 2)[X]).degree < n := by
  rw [degree_lt_iff_coeff_zero]
  intro i hi
  rw [coeff_eval, BitVec.getLsbD_of_ge x i hi]
  rfl

/-- The modulus is monic, whatever its low part. -/
theorem monic_modulus (low : BitVec n) : (modulus low).Monic := monic_X_pow_add (degree_eval_lt low)

theorem degree_modulus (low : BitVec n) : (modulus low).degree = n := by
  rw [modulus, degree_add_eq_left_of_degree_lt (by rw [degree_X_pow]; exact degree_eval_lt low),
    degree_X_pow]

/-- A word is the class of its polynomial. -/
theorem mk_eval (low x : BitVec n) :
    AdjoinRoot.mk (modulus low) (eval X x) = eval (root low) x :=
  (map_eval (AdjoinRoot.mk (modulus low)) x).trans (by rw [mk_X])

/-- In the ring the modulus is zero, so its highest power is its low part. -/
theorem root_pow (low : BitVec n) : root low ^ n = eval (root low) low := by
  have hzero : root low ^ n + eval (root low) low = 0 := by
    rw [← mk_eval, ← mk_X, ← map_pow, ← map_add]
    exact AdjoinRoot.mk_self
  rw [eq_neg_of_add_eq_zero_left hzero, ZModModule.neg_eq_self]

/-- Words of one value have the same bits: their polynomials differ by less than the modulus. -/
theorem eval_root_injective (low : BitVec n) :
    Function.Injective (eval (root low) : BitVec n → WordRing low) := by
  intro x y hxy
  rw [← mk_eval, ← mk_eval, AdjoinRoot.mk_eq_mk] at hxy
  have hpoly : (eval X x : (ZMod 2)[X]) = eval X y := by
    refine sub_eq_zero.mp (eq_zero_of_dvd_of_degree_lt hxy ?_)
    rw [degree_modulus]
    exact lt_of_le_of_lt (degree_sub_le _ _) (max_lt (degree_eval_lt x) (degree_eval_lt y))
  refine BitVec.eq_of_getLsbD_eq fun i _ => ?_
  have hcoeff := congrArg (coeff · i) hpoly
  simp only [coeff_eval] at hcoeff
  cases hx : x.getLsbD i <;> cases hy : y.getLsbD i <;> simp_all

/-- Sums and multiples by the root of values of words are such values, so everything is. -/
theorem eval_root_surjective (hn : 0 < n) (low : BitVec n) :
    Function.Surjective (eval (root low) : BitVec n → WordRing low) := by
  intro a
  induction a using AdjoinRoot.induction_on with
  | ih p =>
    induction p using Polynomial.induction_on with
    | C c =>
      obtain rfl | rfl : c = 0 ∨ c = 1 := by revert c; decide
      · exact ⟨0, by rw [C_0, map_zero, eval_zero]⟩
      · exact ⟨1, by rw [C_1, map_one, eval_one hn]⟩
    | add p q hp hq =>
      obtain ⟨x, hx⟩ := hp
      obtain ⟨y, hy⟩ := hq
      exact ⟨x ^^^ y, by rw [eval_xor, hx, hy, map_add]⟩
    | monomial k c h =>
      obtain ⟨x, hx⟩ := h
      refine ⟨xtime low x, ?_⟩
      rw [eval_xtime (root_pow low), hx, ← mk_X, ← map_mul, pow_succ]
      congr 1
      ring

/-- **The words are the ring.** -/
noncomputable def wordEquiv (hn : 0 < n) (low : BitVec n) : BitVec n ≃ WordRing low :=
  Equiv.ofBijective (eval (root low)) ⟨eval_root_injective low, eval_root_surjective hn low⟩

@[simp] theorem wordEquiv_apply (hn : 0 < n) (low x : BitVec n) :
    wordEquiv hn low x = eval (root low) x := rfl

theorem card_wordRing (hn : 0 < n) (low : BitVec n) : Nat.card (WordRing low) = 2 ^ n := by
  rw [Nat.card_congr ((wordEquiv hn low).symm.trans BitVec.equivFin.toEquiv), Nat.card_fin]

theorem nontrivial_wordRing (hn : 0 < n) (low : BitVec n) : Nontrivial (WordRing low) :=
  AdjoinRoot.nontrivial _ (by rw [degree_modulus]; exact_mod_cast hn.ne')

/-- **The modulus is irreducible if some word has as many powers as there are words but zero**:
all of them are then invertible. -/
theorem irreducible_modulus (hn : 0 < n) {low g : BitVec n}
    (hg : orderOf (eval (root low) g) = 2 ^ n - 1) : Irreducible (modulus low) := by
  classical
  let a := eval (root low) g
  have hord : 0 < orderOf a := by
    rw [hg]
    exact Nat.sub_pos_of_lt (Nat.one_lt_two_pow hn.ne')
  have : Nontrivial (WordRing low) := nontrivial_wordRing hn low
  let _ : Fintype (WordRing low) :=
    Fintype.ofEquiv _ (BitVec.equivFin.toEquiv.symm.trans (wordEquiv hn low))
  have hunit : ∀ k, IsUnit (a ^ k) := fun k => (IsUnit.of_pow_eq_one (pow_orderOf_eq_one a)
    hord.ne').pow k
  have hpowers : (Finset.range (orderOf a)).image (a ^ ·) = Finset.univ.erase 0 := by
    refine Finset.eq_of_subset_of_card_le ?_ ?_
    · intro b hb
      obtain ⟨k, _, rfl⟩ := Finset.mem_image.mp hb
      exact Finset.mem_erase.mpr ⟨(hunit k).ne_zero, Finset.mem_univ _⟩
    · rw [Finset.card_image_of_injOn, Finset.card_range, hg,
        Finset.card_erase_of_mem (Finset.mem_univ _), Finset.card_univ,
        ← Nat.card_eq_fintype_card, card_wordRing hn]
      · rw [Finset.coe_range]
        exact pow_injOn_Iio_orderOf
  have hfield : IsField (WordRing low) :=
    { exists_pair_ne := exists_pair_ne _
      mul_comm := mul_comm
      mul_inv_cancel := by
        intro b hb
        have hmem : b ∈ (Finset.range (orderOf a)).image (a ^ ·) := by
          rw [hpowers]
          exact Finset.mem_erase.mpr ⟨hb, Finset.mem_univ _⟩
        obtain ⟨k, _, rfl⟩ := Finset.mem_image.mp hmem
        exact (hunit k).exists_right_inv }
  have hmax : (Ideal.span {modulus low}).IsMaximal := Ideal.Quotient.maximal_of_isField _ hfield
  exact Ideal.irreducible_of_isMaximal_span_singleton (monic_modulus low).ne_zero hmax

end BinaryField
