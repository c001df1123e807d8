/-
How the hash spreads texts.

Every step of `MurmurHash3_x86_32` can be undone, as a step on its state and as a step on the
block that it takes in.  So texts of one length that differ in one group of four bytes, counted
from the beginning, never have one hash, and as such a group runs through its values the hash
takes every value once.
-/
import DistKV.Ring
import DistKV.Lib.Mixing
import DistKV.Proofs.Decimal

namespace DistKV

open Function Mixing

/-! ### Steps -/

theorem injective_of_bits {f : UInt32 → UInt32} {g : BitVec 32 → BitVec 32}
    (hf : ∀ x, (f x).toBitVec = g x.toBitVec) (hg : Injective g) : Injective f := by
  intro x y h
  refine UInt32.toBitVec_inj.mp (hg ?_)
  rw [← hf, ← hf, h]

/-- There are only finitely many words. -/
theorem bijective_of_injective {f : UInt32 → UInt32} (hf : Injective f) : Bijective f := by
  have hfinite : Finite UInt32 := Finite.of_injective UInt32.toFin fun x y h => by
    rw [← UInt32.ofFin_toFin x, ← UInt32.ofFin_toFin y, h]
  exact Finite.injective_iff_bijective.mp hf

theorem rotl32_13_injective : Injective (rotl32 · 13) :=
  injective_of_bits (fun _ => rfl) (rotate_injective (r := 13) (by decide))

theorem scramble_injective : Injective scramble := by
  have hfirst : Injective (· * c1) :=
    injective_of_bits (fun _ => rfl) (mul_injective (c := 0xcc9e2d51) (d := 0xdee13bb1) rfl)
  have hrotate : Injective (rotl32 · 15) :=
    injective_of_bits (fun _ => rfl) (rotate_injective (r := 15) (by decide))
  have hsecond : Injective (· * c2) :=
    injective_of_bits (fun _ => rfl) (mul_injective (c := 0x1b873593) (d := 0x56ed309b) rfl)
  exact hsecond.comp (hrotate.comp hfirst)

theorem fmix32_injective : Injective fmix32 := by
  have hshift : Injective fun h : UInt32 => h ^^^ (h >>> 16) :=
    injective_of_bits (fun _ => rfl) (xorShift_injective (k := 16) (by decide))
  have hmul : Injective fun h : UInt32 => h * 0x85ebca6b :=
    injective_of_bits (fun _ => rfl) (mul_injective (c := 0x85ebca6b) (d := 0xa5cb9243) rfl)
  have hshift' : Injective fun h : UInt32 => h ^^^ (h >>> 13) :=
    injective_of_bits (fun _ => rfl) (xorShift_injective (k := 13) (by decide))
  have hmul' : Injective fun h : UInt32 => h * 0xc2b2ae35 :=
    injective_of_bits (fun _ => rfl) (mul_injective (c := 0xc2b2ae35) (d := 0x7ed1b41d) rfl)
  exact hshift.comp (hmul'.comp (hshift'.comp (hmul.comp hshift)))

/-- What the block loop does with the sum of its state and a scrambled block. -/
theorem round_injective : Injective fun h : UInt32 => rotl32 h 13 * 5 + 0xe6546b64 := by
  have hmul : Injective fun h : UInt32 => h * 5 :=
    injective_of_bits (fun _ => rfl) (mul_injective (c := 5) (d := 0xcccccccd) rfl)
  intro h h' heq
  exact rotl32_13_injective (hmul (UInt32.add_left_inj _ |>.mp heq))

/-! ### Blocks and tails -/

theorem toNat_shiftLeft (b : UInt8) {k : UInt32} (hk : k.toNat ≤ 24) :
    (b.toUInt32 <<< k).toNat = b.toNat <<< k.toNat := by
  have hb := b.toNat_lt
  have hpow : (2 : Nat) ^ k.toNat ≤ 2 ^ 24 := Nat.pow_le_pow_right (by decide) hk
  have hlt : b.toNat * 2 ^ k.toNat < 2 ^ 32 :=
    calc b.toNat * 2 ^ k.toNat ≤ b.toNat * 2 ^ 24 := Nat.mul_le_mul_left _ hpow
      _ < 2 ^ 32 := by omega
  rw [UInt32.toNat_shiftLeft, UInt8.toNat_toUInt32, Nat.mod_eq_of_lt (hk.trans_lt (by decide)),
    Nat.shiftLeft_eq, Nat.mod_eq_of_lt hlt]

/-- The bytes of a block are its digits. -/
theorem toNat_getblock32 (b0 b1 b2 b3 : UInt8) :
    (getblock32 b0 b1 b2 b3).toNat =
      2 ^ 24 * b3.toNat + (2 ^ 16 * b2.toNat + (2 ^ 8 * b1.toNat + b0.toNat)) := by
  have h0 := b0.toNat_lt
  have h1 := b1.toNat_lt
  have h2 := b2.toNat_lt
  unfold getblock32
  rw [UInt32.toNat_or, UInt32.toNat_or, UInt32.toNat_or, toNat_shiftLeft b1 (by decide),
    toNat_shiftLeft b2 (by decide), toNat_shiftLeft b3 (by decide), UInt8.toNat_toUInt32]
  show ((b0.toNat ||| b1.toNat <<< 8) ||| b2.toNat <<< 16) ||| b3.toNat <<< 24 = _
  rw [Nat.or_comm b0.toNat, shiftLeft_or (by omega), Nat.or_comm _ (b2.toNat <<< 16),
    shiftLeft_or (by omega), Nat.or_comm _ (b3.toNat <<< 24), shiftLeft_or (by omega)]

/-- So every word is the block of one group of bytes. -/
theorem existsUnique_getblock32 (k1 : UInt32) :
    ∃! g : UInt8 × UInt8 × UInt8 × UInt8, getblock32 g.1 g.2.1 g.2.2.1 g.2.2.2 = k1 := by
  have hk := k1.toNat_lt
  have hdigit (n : Nat) : (UInt8.ofNat n).toNat = n % 256 := UInt8.toNat_ofNat'
  refine ⟨(UInt8.ofNat k1.toNat, UInt8.ofNat (k1.toNat / 2 ^ 8), UInt8.ofNat (k1.toNat / 2 ^ 16),
    UInt8.ofNat (k1.toNat / 2 ^ 24)), ?_, ?_⟩
  · dsimp only
    rw [← UInt32.toNat_inj, toNat_getblock32, hdigit, hdigit, hdigit, hdigit]
    omega
  · rintro ⟨b0, b1, b2, b3⟩ hg
    dsimp only at hg
    have hvalue := toNat_getblock32 b0 b1 b2 b3
    rw [hg] at hvalue
    have h0 := b0.toNat_lt
    have h1 := b1.toNat_lt
    have h2 := b2.toNat_lt
    have h3 := b3.toNat_lt
    refine Prod.ext ?_ (Prod.ext ?_ (Prod.ext ?_ ?_))
    · rw [← UInt8.toNat_inj, hdigit]
      dsimp only
      omega
    · rw [← UInt8.toNat_inj, hdigit]
      dsimp only
      omega
    · rw [← UInt8.toNat_inj, hdigit]
      dsimp only
      omega
    · rw [← UInt8.toNat_inj, hdigit]
      dsimp only
      omega

/-- So are the bytes of a tail. -/
theorem toNat_tail (t0 t1 t2 : UInt8) :
    ((t2.toUInt32 <<< 16) ^^^ (t1.toUInt32 <<< 8) ^^^ t0.toUInt32).toNat =
      2 ^ 16 * t2.toNat + (2 ^ 8 * t1.toNat + t0.toNat) := by
  have h0 := t0.toNat_lt
  have h1 := t1.toNat_lt
  rw [UInt32.xor_assoc, UInt32.toNat_xor, UInt32.toNat_xor, toNat_shiftLeft t1 (by decide),
    toNat_shiftLeft t2 (by decide), UInt8.toNat_toUInt32]
  show t2.toNat <<< 16 ^^^ (t1.toNat <<< 8 ^^^ t0.toNat) = _
  rw [shiftLeft_xor (b := t0.toNat) (by omega), shiftLeft_xor (by omega)]

/-- What is left of fewer than four bytes is told apart by the tail. -/
theorem murmurTail_injective {h1 : UInt32} {a b : Bytes} (hlength : a.length = b.length)
    (hshort : a.length < 4) (h : murmurTail h1 a = murmurTail h1 b) : a = b := by
  have hdigits : ∀ t0 t1 t2 u0 u1 u2 : UInt8,
      h1 ^^^ scramble ((t2.toUInt32 <<< 16) ^^^ (t1.toUInt32 <<< 8) ^^^ t0.toUInt32) =
        h1 ^^^ scramble ((u2.toUInt32 <<< 16) ^^^ (u1.toUInt32 <<< 8) ^^^ u0.toUInt32) →
      t0 = u0 ∧ t1 = u1 ∧ t2 = u2 := by
    intro t0 t1 t2 u0 u1 u2 heq
    have hword := scramble_injective ((UInt32.xor_right_inj h1).mp heq)
    rw [← UInt32.toNat_inj, toNat_tail, toNat_tail] at hword
    have h0 := t0.toNat_lt
    have h1 := t1.toNat_lt
    have h0' := u0.toNat_lt
    have h1' := u1.toNat_lt
    rw [← UInt8.toNat_inj, ← UInt8.toNat_inj, ← UInt8.toNat_inj]
    omega
  match a, b, hlength with
  | [], [], _ => rfl
  | [t0], [u0], _ =>
      -- the bytes that are missing count as zero
      obtain ⟨rfl, -, -⟩ := hdigits t0 0 0 u0 0 0 (by simpa [murmurTail] using h)
      rfl
  | [t0, t1], [u0, u1], _ =>
      obtain ⟨rfl, rfl, -⟩ := hdigits t0 t1 0 u0 u1 0 (by simpa [murmurTail] using h)
      rfl
  | [t0, t1, t2], [u0, u1, u2], _ =>
      obtain ⟨rfl, rfl, rfl⟩ := hdigits t0 t1 t2 u0 u1 u2 h
      rfl
  | _ :: _ :: _ :: _ :: rest, _, _ => exact absurd hshort (by simp)

/-! ### Texts -/

/-- The state that the body and the tail leave. -/
def absorb (h1 : UInt32) (s : Bytes) : UInt32 :=
  murmurTail (murmurBody h1 s).1 (murmurBody h1 s).2

theorem murmur3_32_eq (s : Bytes) (seed : UInt32) :
    murmur3_32 s seed = fmix32 (absorb seed s ^^^ UInt32.ofNat s.length) := rfl

theorem murmurBody_block (h1 : UInt32) (b0 b1 b2 b3 : UInt8) (rest : Bytes) :
    murmurBody h1 (b0 :: b1 :: b2 :: b3 :: rest) =
      murmurBody (rotl32 (h1 ^^^ scramble (getblock32 b0 b1 b2 b3)) 13 * 5 + 0xe6546b64) rest := by
  -- on both sides, or the two states are compared first
  delta murmurBody
  rfl

theorem absorb_block (h1 : UInt32) (b0 b1 b2 b3 : UInt8) (rest : Bytes) :
    absorb h1 (b0 :: b1 :: b2 :: b3 :: rest) =
      absorb (rotl32 (h1 ^^^ scramble (getblock32 b0 b1 b2 b3)) 13 * 5 + 0xe6546b64) rest := by
  unfold absorb
  rw [murmurBody_block]

/-- What was there before is not forgotten. -/
theorem absorb_injective : ∀ s, Injective (absorb · s)
  | b0 :: b1 :: b2 :: b3 :: rest => by
      intro h h' heq
      dsimp only at heq
      rw [absorb_block, absorb_block] at heq
      exact (UInt32.xor_left_inj _).mp (round_injective (absorb_injective rest heq))
  | [] => fun _ _ heq => heq
  | [_] => fun _ _ heq => (UInt32.xor_left_inj _).mp heq
  | [_, _] => fun _ _ heq => (UInt32.xor_left_inj _).mp heq
  | [_, _, _] => fun _ _ heq => (UInt32.xor_left_inj _).mp heq

/-- Whole blocks are taken in one after another. -/
theorem exists_absorb_append : ∀ {pre : Bytes}, 4 ∣ pre.length → ∀ h1,
    ∃ h, ∀ s, absorb h1 (pre ++ s) = absorb h s
  | [], _, h1 => ⟨h1, fun _ => rfl⟩
  | b0 :: b1 :: b2 :: b3 :: rest, hpre, h1 => by
      have hrest : 4 ∣ rest.length := by
        simp only [List.length_cons] at hpre
        omega
      obtain ⟨h, hh⟩ := exists_absorb_append hrest
        (rotl32 (h1 ^^^ scramble (getblock32 b0 b1 b2 b3)) 13 * 5 + 0xe6546b64)
      exact ⟨h, fun s => (absorb_block h1 b0 b1 b2 b3 _).trans (hh s)⟩
  | [_], hpre, _ => absurd hpre (by simp)
  | [_, _], hpre, _ => absurd hpre (by simp)
  | [_, _, _], hpre, _ => absurd hpre (by simp)

/-- Four bytes of a text. -/
abbrev Group := UInt8 × UInt8 × UInt8 × UInt8

def Group.bytes (g : Group) : Bytes := [g.1, g.2.1, g.2.2.1, g.2.2.2]

/-- As a block runs through its values, so does the hash. -/
theorem existsUnique_block (h1 : UInt32) (post : Bytes) (length hash : UInt32) :
    ∃! g : Group, fmix32 (absorb h1 (g.bytes ++ post) ^^^ length) = hash := by
  let mix : UInt32 → UInt32 := fun k1 =>
    fmix32 (absorb (rotl32 (h1 ^^^ scramble k1) 13 * 5 + 0xe6546b64) post ^^^ length)
  have hmix : Injective mix := by
    intro k k' heq
    have hstate := absorb_injective post ((UInt32.xor_left_inj length).mp (fmix32_injective heq))
    exact scramble_injective ((UInt32.xor_right_inj h1).mp (round_injective hstate))
  obtain ⟨k1, hk1, hword⟩ := (bijective_of_injective hmix).existsUnique hash
  obtain ⟨g, hg, hbytes⟩ := existsUnique_getblock32 k1
  have hblock : ∀ g : Group, fmix32 (absorb h1 (g.bytes ++ post) ^^^ length) =
      mix (getblock32 g.1 g.2.1 g.2.2.1 g.2.2.2) :=
    fun g => congrArg (fun h => fmix32 (h ^^^ length)) (absorb_block h1 _ _ _ _ post)
  refine ⟨g, (hblock g).trans ((congrArg mix hg).trans hk1), fun g' hg' => ?_⟩
  exact hbytes g' (hword _ ((hblock g').symm.trans hg'))

theorem exists_murmur3_32_append {pre : Bytes} (hpre : 4 ∣ pre.length) (seed : UInt32) :
    ∃ h1, ∀ s, murmur3_32 (pre ++ s) seed =
      fmix32 (absorb h1 s ^^^ UInt32.ofNat (pre.length + s.length)) := by
  obtain ⟨h1, habsorb⟩ := exists_absorb_append hpre seed
  refine ⟨h1, fun s => ?_⟩
  rw [murmur3_32_eq, habsorb, List.length_append]

theorem existsUnique_group {pre : Bytes} (hpre : 4 ∣ pre.length) (post : Bytes)
    (seed hash : UInt32) :
    ∃! g : Group, murmur3_32 (pre ++ (g.bytes ++ post)) seed = hash := by
  obtain ⟨h1, heq⟩ := exists_murmur3_32_append hpre seed
  simp only [heq, List.length_append]
  exact existsUnique_block h1 post (UInt32.ofNat (pre.length + (4 + post.length))) hash

theorem absorb_tail (h1 : UInt32) : ∀ {s : Bytes}, s.length < 4 → absorb h1 s = murmurTail h1 s
  | [], _ => rfl
  | [_], _ => rfl
  | [_, _], _ => rfl
  | [_, _, _], _ => rfl
  | _ :: _ :: _ :: _ :: _, hs => absurd hs (by simp)

/-- Texts of one length that differ in one group of four at most. -/
def OneGroup (s t : Bytes) : Prop :=
  ∃ pre a b post, s = pre ++ (a ++ post) ∧ t = pre ++ (b ++ post) ∧ 4 ∣ pre.length ∧
    a.length = b.length ∧ (a.length = 4 ∨ a.length < 4 ∧ post = [])

theorem exists_group : ∀ {a : Bytes}, a.length = 4 → ∃ g : Group, g.bytes = a
  | [b0, b1, b2, b3], _ => ⟨(b0, b1, b2, b3), rfl⟩

/-- Such texts do not collide. -/
theorem murmur3_32_eq_iff {s t : Bytes} (h : OneGroup s t) (seed : UInt32) :
    murmur3_32 s seed = murmur3_32 t seed ↔ s = t := by
  refine ⟨fun hhash => ?_, fun heq => heq ▸ rfl⟩
  obtain ⟨pre, a, b, post, rfl, rfl, hpre, hlength, hfour | ⟨hshort, rfl⟩⟩ := h
  · obtain ⟨g, rfl⟩ := exists_group hfour
    obtain ⟨g', rfl⟩ := exists_group (hlength ▸ hfour)
    rw [(existsUnique_group hpre post seed _).unique hhash rfl]
  · obtain ⟨h1, heq⟩ := exists_murmur3_32_append hpre seed
    rw [List.append_nil, List.append_nil, heq, heq, hlength] at hhash
    have htail := (UInt32.xor_left_inj _).mp (fmix32_injective hhash)
    rw [absorb_tail h1 hshort, absorb_tail h1 (hlength ▸ hshort)] at htail
    rw [murmurTail_injective hlength hshort htail]

/-- **The hash is even.**  As four bytes of a text run through their values, counted from the
beginning, it takes every value once, and no two texts of one length that differ in one group
only have the same hash. -/
theorem hash_is_even (seed : UInt32) :
    (∀ (pre post : Bytes) (hash : UInt32), 4 ∣ pre.length →
      ∃! g : Group, murmur3_32 (pre ++ (g.bytes ++ post)) seed = hash) ∧
    ∀ s t : Bytes, OneGroup s t → (murmur3_32 s seed = murmur3_32 t seed ↔ s = t) :=
  ⟨fun _ post hash hpre => existsUnique_group hpre post seed hash,
    fun _ _ h => murmur3_32_eq_iff h seed⟩

theorem hash_is_even_four :
    (∃! g : Group, murmur3_32 (str "node" ++ (g.bytes ++ str "!")) 0 = 7) ∧
    (murmur3_32 (str "node10") 0 = murmur3_32 (str "node11") 0 ↔ str "node10" = str "node11") :=
  ⟨(hash_is_even 0).1 (str "node") (str "!") 7 (by decide),
    (hash_is_even 0).2 (str "node10") (str "node11")
      ⟨str "node", str "10", str "11", [], rfl, rfl, by decide, rfl, Or.inr ⟨by decide, rfl⟩⟩⟩

namespace ConsistentHashRing

/-- Keys have places of their own on the ring when their texts differ in one group. -/
theorem hashKey_eq_iff {i j : Key} (h : OneGroup (toStdString i) (toStdString j)) :
    hashKey i = hashKey j ↔ i = j :=
  (murmur3_32_eq_iff h 0).trans ⟨toStdString_injective, fun heq => heq ▸ rfl⟩

end ConsistentHashRing

end DistKV
