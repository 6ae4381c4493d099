import Mathlib.Data.BitVec
import Mathlib.Data.Nat.Log
import Mathlib.Order.Lattice.Nat

/-!
# Histograms

`StatHist::update` finds the bin of a 64-bit value with `floorLog2`, whose argument has 32 bits.
-/

namespace Sniper.Stats

open Function Nat

/-- One line of `floorLog2`. The last one does not shift, but nothing reads its number. -/
def halve (mask shift : ℕ) (x : ℤ × ℕ) : ℤ × ℕ :=
  if x.2 &&& mask ≠ 0 then (x.1 + shift, x.2 >>> shift) else x

def floorLog2 (n : ℕ) : ℤ :=
  if n = 0 then -1
  else (halve 0x2 1 <| halve 0xc 2 <| halve 0xf0 4 <| halve 0xff00 8 <|
    halve 0xffff0000 16 (0, n)).1

def histMax : ℕ := 20

structure StatHist where
  n : BitVec 64
  s : BitVec 64
  s2 : BitVec 64
  min : BitVec 64
  max : BitVec 64
  hist : ℕ → BitVec 64

def StatHist.create : StatHist := ⟨0, 0, 0, 0, 0, fun _ => 0⟩

def StatHist.update (stat : StatHist) (v : BitVec 64) : StatHist :=
  let stat := if stat.n = 0 then { stat with min := v, max := v } else stat
  let bin := floorLog2 (v.toNat % 2 ^ 32) + 1
  let bin := (if bin ≥ histMax then (histMax : ℤ) - 1 else bin).toNat
  { n := stat.n + 1
    s := stat.s + v
    s2 := stat.s2 + v * v
    min := if v < stat.min then v else stat.min
    max := if v > stat.max then v else stat.max
    hist := Function.update stat.hist bin (stat.hist bin + 1) }

def binOf (v : ℕ) : ℕ := if v = 0 then 0 else min (histMax - 1) (log 2 v + 1)

/-- The first component and the logarithm of the second one, which has `k` bits, add up to `l`. -/
def Left (k l : ℕ) (x : ℤ × ℕ) : Prop := x.2 ≠ 0 ∧ x.2 < 2 ^ k ∧ x.1 + log 2 x.2 = l

lemma and_mask_eq_zero {k n : ℕ} (small : n < 2 ^ (k + k)) :
    n &&& (2 ^ k - 1) <<< k = 0 ↔ n < 2 ^ k := by
  have shifted : n &&& (2 ^ k - 1) <<< k = (n >>> k &&& (2 ^ k - 1)) <<< k := by
    apply eq_of_testBit_eq
    intro i
    by_cases below : k ≤ i <;> simp [testBit_shiftLeft, below, Bool.and_comm]
  have high : n / 2 ^ k < 2 ^ k := Nat.div_lt_of_lt_mul (by rwa [← Nat.pow_add])
  rw [shifted, and_two_pow_sub_one_eq_mod, shiftRight_eq_div_pow, mod_eq_of_lt high,
    Nat.shiftLeft_eq, Nat.mul_eq_zero, Nat.div_eq_zero_iff]
  have pos := Nat.two_pow_pos k
  omega

lemma Left.halve {k l : ℕ} {x : ℤ × ℕ} (left : Left (k + k) l x) :
    Left k l (halve ((2 ^ k - 1) <<< k) k x) := by
  obtain ⟨nonzero, small, whole⟩ := left
  rw [Stats.halve]
  split
  · next high =>
    have reach : 2 ^ k ≤ x.2 := Nat.le_of_not_lt (mt (and_mask_eq_zero small).mpr high)
    have log : k ≤ log 2 x.2 := le_log_of_pow_le (by omega) reach
    rw [shiftRight_eq_div_pow]
    refine ⟨(Nat.div_pos reach (Nat.two_pow_pos k)).ne', ?_, ?_⟩
    · exact Nat.div_lt_of_lt_mul (by rwa [← Nat.pow_add])
    · rw [log_div_base_pow]
      omega
  · next low => exact ⟨nonzero, (and_mask_eq_zero small).mp (not_not.mp low), whole⟩

lemma floorLog2_eq {n : ℕ} (nonzero : n ≠ 0) (small : n < 2 ^ 32) : floorLog2 n = log 2 n := by
  have start : Left (16 + 16) (log 2 n) (0, n) := ⟨nonzero, small, Int.zero_add _⟩
  obtain ⟨some, bit, whole⟩ : Left 1 (log 2 n) _ :=
    Left.halve (k := 1) (Left.halve (k := 2) (Left.halve (k := 4)
      (Left.halve (k := 8) start.halve)))
  rw [log_of_lt (b := 2) bit] at whole
  rw [floorLog2, if_neg nonzero]
  exact (Int.add_zero _).symm.trans whole

lemma update_hist (stat : StatHist) (v : BitVec 64) : (stat.update v).hist =
    update stat.hist (binOf (v.toNat % 2 ^ 32)) (stat.hist (binOf (v.toNat % 2 ^ 32)) + 1) := by
  have bin : (if floorLog2 (v.toNat % 2 ^ 32) + 1 ≥ histMax then (histMax : ℤ) - 1
      else floorLog2 (v.toNat % 2 ^ 32) + 1).toNat = binOf (v.toNat % 2 ^ 32) := by
    by_cases zero : v.toNat % 2 ^ 32 = 0
    · rw [zero]
      rfl
    · rw [floorLog2_eq zero (mod_lt _ (by decide)), binOf, if_neg zero, histMax]
      omega
  rw [StatHist.update, ← bin]
  split <;> rfl

lemma binOf_eq_iff (v : ℕ) : binOf (v % 2 ^ 32) = binOf v ↔ v < 2 ^ 32 ∨ 2 ^ 18 ≤ v % 2 ^ 32 := by
  by_cases small : v < 2 ^ 32
  · rw [mod_eq_of_lt small]
    exact iff_of_true rfl (.inl small)
  have last : binOf v = 19 := by
    have high : 32 ≤ log 2 v := le_log_of_pow_le (by decide) (by omega)
    rw [binOf, if_neg (by omega), histMax]
    omega
  rw [last, binOf, histMax, or_iff_right small]
  split
  · omega
  · next nonzero =>
    rw [← le_log_iff_pow_le (by decide) nonzero]
    omega

/-- The value is counted in its bin, and only there, exactly when it has 32 bits or its low 32 bits
belong in the last bin too. -/
theorem update_bin_iff (stat : StatHist) (v : BitVec 64) : (stat.update v).hist =
      Function.update stat.hist (binOf v.toNat) (stat.hist (binOf v.toNat) + 1) ↔
    v.toNat < 2 ^ 32 ∨ 2 ^ 18 ≤ v.toNat % 2 ^ 32 := by
  rw [update_hist, ← binOf_eq_iff]
  constructor
  · intro same
    by_contra other
    have counted := congrFun same (binOf (v.toNat % 2 ^ 32))
    rw [update_self, update_of_ne other] at counted
    simp at counted
  · intro same
    rw [same]

theorem two_pow_counted_as_zero : binOf (2 ^ 32) = 19 ∧
    (StatHist.create.update (2 ^ 32)).hist 19 = 0 ∧
    (StatHist.create.update (2 ^ 32)).hist 0 = 1 := by
  refine ⟨?_, by decide, by decide⟩
  rw [binOf, if_neg (by decide), log_pow (by decide)]
  rfl

end Sniper.Stats
