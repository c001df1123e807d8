/-
Numbers as decimal text.

`std::to_string` of an `int` is its digits, behind a minus sign if there is one.  The digits
are read back to the number, and so no two numbers have the same text.
-/
import DistKV.Generation
import Mathlib.Data.List.TakeWhile

namespace DistKV

/-- The digits of a number, as bytes. -/
def digits (n : Nat) : Bytes := (Nat.toDigits 10 n).map fun c => UInt8.ofNat c.toNat

theorem toNat_digit {c : Char} (hc : c.isDigit) : (UInt8.ofNat c.toNat).toNat = c.toNat := by
  have hrange : 48 ≤ c.toNat ∧ c.toNat ≤ 57 := Char.isDigit_iff_toNat.mp hc
  rw [UInt8.toNat_ofNat']
  omega

theorem isDigit_of_mem_digits {n : Nat} {b : UInt8} (hb : b ∈ digits n) : isDigit b = true := by
  rcases List.mem_map.mp hb with ⟨c, hc, rfl⟩
  have hdigit : c.isDigit := Nat.isDigit_of_mem_toDigits (by omega) (by omega) hc
  have hrange : 48 ≤ c.toNat ∧ c.toNat ≤ 57 := Char.isDigit_iff_toNat.mp hdigit
  unfold isDigit
  rw [Bool.and_eq_true, decide_eq_true_iff, decide_eq_true_iff, UInt8.le_iff_toNat_le,
    UInt8.le_iff_toNat_le, toNat_digit hdigit]
  exact hrange

theorem foldl_digits (n : Nat) :
    (digits n).foldl (fun n c => 10 * n + (c.toNat - 48)) 0 = n := by
  unfold digits
  rw [List.foldl_map]
  have hfold : ∀ (l : List Char) (k : Nat), (∀ c ∈ l, c.isDigit) →
      l.foldl (fun n c => 10 * n + ((UInt8.ofNat c.toNat).toNat - 48)) k =
        Nat.ofDigitChars 10 l k := by
    intro l
    induction l with
    | nil =>
        intro k hl
        rw [Nat.ofDigitChars_nil]
        rfl
    | cons c l ih =>
        intro k hl
        rw [List.foldl_cons, Nat.ofDigitChars_cons, toNat_digit (hl c List.mem_cons_self)]
        exact ih _ fun c' hc' => hl c' (List.mem_cons_of_mem c hc')
  rw [hfold _ 0 fun c hc => Nat.isDigit_of_mem_toDigits (by omega) (by omega) hc]
  exact Nat.ofDigitChars_ten_toDigits

theorem takeWhile_digits (n : Nat) : (digits n).takeWhile isDigit = digits n :=
  List.takeWhile_eq_self_iff.mpr fun _ hb => isDigit_of_mem_digits hb

theorem digits_ne_nil (n : Nat) : digits n ≠ [] := by
  unfold digits
  rw [ne_eq, List.map_eq_nil_iff]
  exact Nat.toDigits_ne_nil

theorem isSpace_of_isDigit {b : UInt8} (hb : isDigit b = true) : isSpace b = false := by
  unfold isDigit at hb
  unfold isSpace
  rw [Bool.and_eq_true, decide_eq_true_iff, decide_eq_true_iff, UInt8.le_iff_toNat_le,
    UInt8.le_iff_toNat_le] at hb
  have hlow : (48 : UInt8).toNat = 48 := rfl
  rw [Bool.or_eq_false_iff, Bool.and_eq_false_iff, decide_eq_false_iff_not, decide_eq_false_iff_not,
    decide_eq_false_iff_not]
  refine ⟨fun heq => ?_, Or.inr fun hle => ?_⟩
  · rw [heq] at hb
    exact absurd hb.1 (by decide)
  · rw [UInt8.le_iff_toNat_le] at hle
    have hhigh : (13 : UInt8).toNat = 13 := rfl
    omega

theorem takeSign_cons (c : UInt8) (rest : Bytes) : takeSign (c :: rest) =
    if c = 45 then (true, rest) else if c = 43 then (false, rest) else (false, c :: rest) := rfl

/-- Behind a sign, or none, comes a digit. -/
theorem takeSign_append {sgn ds : Bytes} (hsgn : sgn = [] ∨ sgn = str "+" ∨ sgn = str "-")
    (hds : ∀ b ∈ ds.head?, isDigit b = true) :
    takeSign (sgn ++ ds) = (decide (sgn = str "-"), ds) := by
  rcases hsgn with rfl | rfl | rfl
  · cases ds with
    | nil => rfl
    | cons c ds =>
        have hc := hds c rfl
        have hminus : c ≠ 45 := fun heq => by
          rw [heq] at hc
          exact absurd hc (by decide)
        have hplus : c ≠ 43 := fun heq => by
          rw [heq] at hc
          exact absurd hc (by decide)
        rw [List.nil_append, takeSign_cons, if_neg hminus, if_neg hplus]
        rfl
  · rfl
  · rfl

theorem toStdString_natCast (n : Nat) : toStdString n = digits n := by
  unfold toStdString
  dsimp only
  rw [if_neg (by omega), Int.natAbs_natCast]
  rfl

theorem digits_injective {m n : Nat} (h : digits m = digits n) : m = n := by
  rw [← foldl_digits m, h, foldl_digits]

theorem minus_append_digits_ne (m n : Nat) : str "-" ++ digits m ≠ digits n := by
  intro h
  have hmem : (45 : UInt8) ∈ digits n := by
    rw [← h]
    exact List.mem_append_left _ (List.mem_singleton.mpr rfl)
  have hdigit := isDigit_of_mem_digits hmem
  revert hdigit
  decide

theorem toStdString_injective {i j : Int} (h : toStdString i = toStdString j) : i = j := by
  unfold toStdString at h
  dsimp only at h
  by_cases hi : i < 0
  · rw [if_pos hi] at h
    by_cases hj : j < 0
    · rw [if_pos hj] at h
      have habs := digits_injective (List.append_cancel_left h)
      omega
    · rw [if_neg hj] at h
      exact absurd h (minus_append_digits_ne _ _)
  · rw [if_neg hi] at h
    by_cases hj : j < 0
    · rw [if_pos hj] at h
      exact absurd h.symm (minus_append_digits_ne _ _)
    · rw [if_neg hj] at h
      have habs := digits_injective h
      omega

end DistKV
