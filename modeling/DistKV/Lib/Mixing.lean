/-
Mixing steps that lose nothing.

Hash functions are put together from steps on words: multiplication by an odd number, rotation,
and the word xored with itself shifted to the right.  Each of them is injective, and words are
finite, so each takes every value once.  Bytes that are put next to each other, by `or` or by
`xor`, are the digits of the word.
-/
import Mathlib.Data.BitVec
import Mathlib.Data.Fintype.Card

namespace Mixing

open Function

variable {w k r : Nat}

/-- From the top bit down, each bit is what remains when the bit `k` above it is known. -/
theorem xorShift_injective (hk : 0 < k) : Injective fun x : BitVec w => x ^^^ (x >>> k) := by
  intro x y h
  have hbits : ∀ n i, w ≤ i + n → x.getLsbD i = y.getLsbD i := by
    intro n
    induction n with
    | zero =>
        intro i hi
        rw [BitVec.getLsbD_of_ge x i hi, BitVec.getLsbD_of_ge y i hi]
    | succ n ih =>
        intro i hi
        have hbit := congrArg (BitVec.getLsbD · i) h
        simp only [BitVec.getLsbD_xor, BitVec.getLsbD_ushiftRight, ih (k + i) (by omega)] at hbit
        exact Bool.xor_left_inj.mp hbit
  exact BitVec.eq_of_getLsbD_eq fun i _ => hbits w i (Nat.le_add_left w i)

/-- A bit that is shifted out at one end comes in at the other. -/
theorem rotate_injective (hr : r ≤ w) :
    Injective fun x : BitVec w => (x <<< r) ||| (x >>> (w - r)) := by
  intro x y h
  refine BitVec.eq_of_getElem_eq fun i hi => ?_
  by_cases hlow : i < w - r
  · have hbit := congrArg (BitVec.getLsbD · (i + r)) h
    have hin : i + r < w := by omega
    have hout : w ≤ w - r + (i + r) := by omega
    have hnot : ¬ i + r < r := by omega
    simpa [hin, hout, hnot, hi, BitVec.getLsbD_of_ge] using hbit
  · have hbit := congrArg (BitVec.getLsbD · (i - (w - r))) h
    have hin : i - (w - r) < r := by omega
    have hback : w - r + (i - (w - r)) = i := by omega
    simpa [hin, hback, hi] using hbit

theorem mul_injective {c d : BitVec w} (h : c * d = 1) : Injective fun x : BitVec w => x * c :=
  (IsUnit.of_mul_eq_one d h).mul_left_injective

/-! ### Digits -/

variable {a b : Nat}

theorem shiftLeft_or (hb : b < 2 ^ k) (a : Nat) : a <<< k ||| b = 2 ^ k * a + b := by
  rw [← Nat.shiftLeft_add_eq_or_of_lt hb, Nat.shiftLeft_eq, Nat.mul_comm]

theorem shiftLeft_xor (hb : b < 2 ^ k) (a : Nat) : a <<< k ^^^ b = 2 ^ k * a + b := by
  refine Nat.eq_of_testBit_eq fun i => ?_
  rw [Nat.testBit_two_pow_mul_add a hb, Nat.testBit_xor, Nat.testBit_shiftLeft]
  by_cases hi : i < k
  · simp [hi, Nat.not_le.mpr hi]
  · have hzero : b.testBit i = false :=
      Nat.testBit_lt_two_pow (hb.trans_le (Nat.pow_le_pow_right (by omega) (by omega)))
    simp [hi, hzero, Nat.not_lt.mp hi]

end Mixing
