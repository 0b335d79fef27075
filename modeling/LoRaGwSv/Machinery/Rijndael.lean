import Mathlib.LinearAlgebra.Matrix.Circulant
import Mathlib.Tactic.LinearCombination
import LoRaGwSv.Machinery.BinaryField

/-!
# Machinery/Rijndael — the block cipher of FIPS 197 over its field

A byte is an element of the field `GF` of the polynomials over the field of two elements modulo
`X ^ 8 + X ^ 4 + X ^ 3 + X + 1`, a block a four by four matrix of such elements, and each step of
the cipher a permutation of the blocks: a substitution that inverts in the field, a rotation of the
rows, the multiplication of each column by a circulant matrix, and the addition of a round key.

The cipher is composed of permutations (`cipher`), so that its inverse needs no proof of its own.
-/

namespace Rijndael

open BinaryField

/-- `X ^ 4 + X ^ 3 + X + 1`. -/
def low : BitVec 8 := 0x1b

/-- The field of the bytes. -/
abbrev GF : Type := WordRing low

/-- The element that the byte 2 names. -/
noncomputable abbrev α : GF := root low

/-! ## The field

The field has 256 elements, as the powers of `X + 1` are all of its units, which is checked on words
of eight bits. -/

/-- `X + 1` generates the field: its order divides 255, and no proper divisor of it. -/
theorem orderOf_three : orderOf (eval α (3 : BitVec 8)) = 2 ^ 8 - 1 := by
  have hpow : ∀ k, eval α (3 : BitVec 8) ^ k = eval α (pow low 3 k) := fun k =>
    (eval_pow (root_pow low) (by decide) 3 k).symm
  have hne : ∀ k, pow low 3 k ≠ 1 → eval α (3 : BitVec 8) ^ k ≠ 1 := by
    intro k hk heq
    rw [hpow, ← eval_one (show 0 < 8 by decide)] at heq
    exact hk (eval_root_injective low heq)
  refine orderOf_eq_of_pow_and_pow_div_prime (by decide) ?_ fun p hp hdvd => ?_
  · rw [hpow, show pow low 3 (2 ^ 8 - 1) = 1 by decide +kernel, eval_one (by decide)]
  · have hfactor : p ∈ ({3, 5, 17} : Finset ℕ) := by
      rw [show ({3, 5, 17} : Finset ℕ) = (2 ^ 8 - 1).primeFactors by decide +kernel]
      exact Nat.mem_primeFactors.mpr ⟨hp, hdvd, by decide⟩
    simp only [Finset.mem_insert, Finset.mem_singleton] at hfactor
    obtain rfl | rfl | rfl := hfactor
    · exact hne _ (by decide +kernel)
    · exact hne _ (by decide +kernel)
    · exact hne _ (by decide +kernel)

instance fact_irreducible : Fact (Irreducible (modulus low)) :=
  ⟨irreducible_modulus (by decide) orderOf_three⟩

/-- A byte is the element its bits name. -/
noncomputable def byteEquiv : UInt8 ≃ GF :=
  Equiv.trans ⟨UInt8.toBitVec, UInt8.ofBitVec, fun _ => rfl, fun _ => rfl⟩
    (wordEquiv (by decide) low)

/-- A byte names the sum of the powers that its bits select. -/
theorem byteEquiv_apply (b : UInt8) : byteEquiv b = eval α b.toBitVec := rfl

@[simp] theorem byteEquiv_zero : byteEquiv 0 = 0 := eval_zero

@[simp] theorem byteEquiv_one : byteEquiv 1 = 1 := eval_one (by decide)

@[simp] theorem byteEquiv_xor (a b : UInt8) : byteEquiv (a ^^^ b) = byteEquiv a + byteEquiv b :=
  eval_xor ..

theorem two_eq_zero : (2 : GF) = 0 := by
  rw [← one_add_one_eq_two, ZModModule.add_self]

/-! ## The steps

Each step is a permutation of the blocks, given with its inverse. -/

/-- The affine map of the substitution, on the bits of a byte. -/
def affineWord (x : BitVec 8) : BitVec 8 :=
  x ^^^ x.rotateLeft 1 ^^^ x.rotateLeft 2 ^^^ x.rotateLeft 3 ^^^ x.rotateLeft 4 ^^^ 0x63

/-- The inverse of the affine map, on bits. -/
def invAffineWord (x : BitVec 8) : BitVec 8 :=
  x.rotateLeft 1 ^^^ x.rotateLeft 3 ^^^ x.rotateLeft 6 ^^^ 0x05

theorem invAffineWord_affineWord : ∀ x, invAffineWord (affineWord x) = x := by
  decide +kernel

theorem affineWord_invAffineWord : ∀ x, affineWord (invAffineWord x) = x := by
  decide +kernel

/-- The affine map of the substitution. -/
def affine : Equiv.Perm (BitVec 8) :=
  ⟨affineWord, invAffineWord, invAffineWord_affineWord, affineWord_invAffineWord⟩

/-- The substitution: the inverse in the field, then the affine map. -/
noncomputable def sBox : Equiv.Perm GF :=
  (Equiv.inv GF).trans ((wordEquiv (by decide) low).symm.trans
    (affine.trans (wordEquiv (by decide) low)))

/-- A block: row `r` of column `c` is its byte `4 * c + r`. -/
abbrev State : Type := Matrix (Fin 4) (Fin 4) GF

/-- `SubBytes`: the substitution on every byte. -/
noncomputable def subBytes : Equiv.Perm State := sBox.mapMatrix

/-- Row `r` is rotated to the left by `r`. -/
def shiftRows : Equiv.Perm State where
  toFun s := Matrix.of fun r c => s r (c + r)
  invFun s := Matrix.of fun r c => s r (c - r)
  left_inv s := by
    ext r c
    simp only [Matrix.of_apply, sub_add_cancel]
  right_inv s := by
    ext r c
    simp only [Matrix.of_apply, add_sub_cancel_right]

/-- The bytes `02`, `01`, `01`, `03` in the first column, one row lower in each further one. -/
noncomputable def mixMatrix : State := Matrix.circulant ![α, 1, 1, α + 1]

/-- The bytes `0e`, `09`, `0d`, `0b`. -/
noncomputable def invMixMatrix : State :=
  Matrix.circulant ![α ^ 3 + α ^ 2 + α, α ^ 3 + 1, α ^ 3 + α ^ 2 + 1, α ^ 3 + α + 1]

/-- The product of a circulant matrix with a column, written out. -/
theorem circulant_mulVec (v : Fin 4 → GF) (a b c d : GF) :
    (Matrix.circulant v).mulVec ![a, b, c, d]
      = ![v 0 * a + v 3 * b + v 2 * c + v 1 * d, v 1 * a + v 0 * b + v 3 * c + v 2 * d,
          v 2 * a + v 1 * b + v 0 * c + v 3 * d, v 3 * a + v 2 * b + v 1 * c + v 0 * d] := by
  ext i
  rw [Matrix.mulVec, dotProduct, Fin.sum_univ_four]
  fin_cases i <;> rfl

/-- No product reaches degree 8: what is not the unit is there twice. -/
theorem invMixMatrix_mul_mixMatrix : invMixMatrix * mixMatrix = 1 := by
  rw [invMixMatrix, mixMatrix, Matrix.circulant_mul, ← Matrix.circulant_single_one,
    circulant_mulVec]
  congr 1
  ext i
  fin_cases i
  · change (α ^ 3 + α ^ 2 + α) * α + (α ^ 3 + α + 1) * 1 + (α ^ 3 + α ^ 2 + 1) * 1
      + (α ^ 3 + 1) * (α + 1) = 1
    linear_combination (α ^ 4 + 2 * α ^ 3 + α ^ 2 + α + 1) * two_eq_zero
  · change (α ^ 3 + 1) * α + (α ^ 3 + α ^ 2 + α) * 1 + (α ^ 3 + α + 1) * 1
      + (α ^ 3 + α ^ 2 + 1) * (α + 1) = 0
    linear_combination (α ^ 4 + 2 * α ^ 3 + α ^ 2 + 2 * α + 1) * two_eq_zero
  · change (α ^ 3 + α ^ 2 + 1) * α + (α ^ 3 + 1) * 1 + (α ^ 3 + α ^ 2 + α) * 1
      + (α ^ 3 + α + 1) * (α + 1) = 0
    linear_combination (α ^ 4 + 2 * α ^ 3 + α ^ 2 + 2 * α + 1) * two_eq_zero
  · change (α ^ 3 + α + 1) * α + (α ^ 3 + α ^ 2 + 1) * 1 + (α ^ 3 + 1) * 1
      + (α ^ 3 + α ^ 2 + α) * (α + 1) = 0
    linear_combination (α ^ 4 + 2 * α ^ 3 + 2 * α ^ 2 + α + 1) * two_eq_zero

/-- The two matrices are inverse to each other. -/
theorem mixMatrix_mul_invMixMatrix : mixMatrix * invMixMatrix = 1 := by
  rw [mixMatrix, invMixMatrix, Matrix.circulant_mul_comm]
  exact invMixMatrix_mul_mixMatrix

/-- `MixColumns`: every column times the matrix. -/
noncomputable def mixColumns : Equiv.Perm State where
  toFun s := mixMatrix * s
  invFun s := invMixMatrix * s
  left_inv s := by
    change invMixMatrix * (mixMatrix * s) = s
    rw [← mul_assoc, invMixMatrix_mul_mixMatrix, one_mul]
  right_inv s := by
    change mixMatrix * (invMixMatrix * s) = s
    rw [← mul_assoc, mixMatrix_mul_invMixMatrix, one_mul]

/-- `AddRoundKey`: the sum with the round key. -/
noncomputable def addRoundKey (k : State) : Equiv.Perm State := Equiv.addRight k

theorem addRoundKey_symm (k : State) : (addRoundKey k).symm = addRoundKey k := by
  have hneg : -k = k := by
    ext r c
    exact ZModModule.neg_eq_self _
  rw [addRoundKey, Equiv.addRight_symm, hneg]

/-! ## The cipher

The cipher is a composition of permutations, and deciphering is its inverse. -/

section Cipher

variable (k : ℕ → State)

/-- The first round key, and the rounds after it. -/
noncomputable def rounds : ℕ → Equiv.Perm State
  | 0 => addRoundKey (k 0)
  | j + 1 => (rounds j).trans (subBytes.trans (shiftRows.trans (mixColumns.trans
      (addRoundKey (k (j + 1))))))

theorem rounds_succ_apply (j : ℕ) (s : State) :
    rounds k (j + 1) s
      = addRoundKey (k (j + 1)) (mixColumns (shiftRows (subBytes (rounds k j s)))) := rfl

/-- Back, the steps are undone from the last to the first. -/
theorem rounds_succ_symm_apply (j : ℕ) (s : State) :
    (rounds k (j + 1)).symm s
      = (rounds k j).symm (subBytes.symm (shiftRows.symm (mixColumns.symm
          ((addRoundKey (k (j + 1))).symm s)))) := rfl

/-- The cipher of `j + 1` rounds: the last mixes no columns. -/
noncomputable def cipher (j : ℕ) : Equiv.Perm State :=
  (rounds k j).trans (subBytes.trans (shiftRows.trans (addRoundKey (k (j + 1)))))

/-- The cipher reads no round key after its last. -/
theorem cipher_congr {k k' : ℕ → State} {j : ℕ} (hk : ∀ i ≤ j + 1, k i = k' i) :
    cipher k j = cipher k' j := by
  have hrounds : ∀ i ≤ j, rounds k i = rounds k' i := by
    intro i hi
    induction i with
    | zero => rw [rounds, rounds, hk 0 (by omega)]
    | succ i ih => rw [rounds, rounds, ih (by omega), hk (i + 1) (by omega)]
  rw [cipher, cipher, hrounds j le_rfl, hk (j + 1) le_rfl]

/-- The last round leaves out `MixColumns`. -/
theorem cipher_apply (j : ℕ) (s : State) :
    cipher k j s = addRoundKey (k (j + 1)) (shiftRows (subBytes (rounds k j s))) := rfl

/-- The inverse cipher undoes the last round first. -/
theorem cipher_symm_apply (j : ℕ) (s : State) :
    (cipher k j).symm s
      = (rounds k j).symm (subBytes.symm (shiftRows.symm ((addRoundKey (k (j + 1))).symm s))) :=
  rfl

end Cipher

/-! ## The key schedule -/

/-- Four bytes, one column. -/
abbrev Word : Type := Fin 4 → GF

/-- `SubWord`: the substitution on a word. -/
noncomputable def subWord (w : Word) : Word := fun r => sBox (w r)

/-- `RotWord`: the bytes of a word, moved on by one. -/
def rotWord (w : Word) : Word := w ∘ finRotate 4

/-- A power of the root in the first byte. -/
noncomputable def rcon (j : ℕ) : Word := ![α ^ (j - 1), 0, 0, 0]

/-- The words of the expanded key of four words. -/
noncomputable def word (key : Fin 4 → Word) (i : ℕ) : Word :=
  if h : i < 4 then key ⟨i, h⟩
  else
    word key (i - 4) + if i % 4 = 0 then subWord (rotWord (word key (i - 1))) + rcon (i / 4)
      else word key (i - 1)

theorem word_of_lt (key : Fin 4 → Word) {i : ℕ} (hi : i < 4) : word key i = key ⟨i, hi⟩ := by
  rw [word, dif_pos hi]

/-- Each further word comes from the one before and the one four before. -/
theorem word_of_le (key : Fin 4 → Word) {i : ℕ} (hi : 4 ≤ i) :
    word key i
      = word key (i - 4) + if i % 4 = 0 then subWord (rotWord (word key (i - 1))) + rcon (i / 4)
          else word key (i - 1) := by
  rw [word, dif_neg (not_lt.mpr hi)]

/-- Four words of the expanded key, one a column. -/
noncomputable def roundKey (key : Fin 4 → Word) (j : ℕ) : State :=
  Matrix.of fun r c => word key (j * 4 + c) r

/-- The cipher under a key of 128 bits. -/
noncomputable def aes128 (key : Fin 4 → Word) : Equiv.Perm State := cipher (roundKey key) 9

end Rijndael
