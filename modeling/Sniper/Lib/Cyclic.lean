import Mathlib.Algebra.Order.Group.Unbundled.Int
import Mathlib.Algebra.Order.Ring.Nat
import Mathlib.Data.Int.ModEq
import Mathlib.Data.List.Basic
import Mathlib.Tactic.Ring

/-!
# Counting in a circle

Numbers that wrap around: machine words, turns of owners, residues under a rotation, stamps of
passes, and places on a lane whose ends are linked.
-/

/-!
## Strided loops on machine words

The loop `for (x = first; x <= last; x += step)` where `x` is a word, that is a number below `M`,
and the addition wraps around. When `first` and `last` are multiples of `step` it runs through the
multiples between them, unless `last` is the greatest multiple there is: then no word is past it and
the loop does not end.
-/

namespace Strides

open Option Nat

variable (M step last : ℕ)

/-- The values of `x` in the turns of the loop; `none` when it takes more turns than `fuel`. -/
def visit : ℕ → ℕ → Option (List ℕ)
  | 0, _ => none
  | fuel + 1, x =>
    if x ≤ last then (visit fuel ((x + step) % M)).map (x :: ·) else some []

/-- `x` and the values after the next `turns` steps. -/
def steps : ℕ → ℕ → List ℕ
  | 0, x => [x]
  | turns + 1, x => x :: steps turns (x + step)

variable {M step last}

variable {turns x : ℕ}

lemma mem_steps {y : ℕ} : y ∈ steps step turns x ↔ ∃ i ≤ turns, y = x + i * step := by
  induction turns generalizing x with
  | zero => simp [steps]
  | succ turns ih =>
    rw [steps, List.mem_cons, ih]
    constructor
    · rintro (rfl | ⟨i, low, rfl⟩)
      · exact ⟨0, zero_le _, by omega⟩
      · exact ⟨i + 1, by omega, by rw [succ_mul]; omega⟩
    · rintro ⟨i, low, rfl⟩
      cases i with
      | zero => exact .inl (by omega)
      | succ i => exact .inr ⟨i, by omega, by rw [succ_mul]; omega⟩

lemma visit_past (past : last < x) (fuel : ℕ) : visit M step last (fuel + 1) x = some [] :=
  if_neg (not_le.mpr past)

variable {fuel : ℕ}

lemma visit_unique {fuel' : ℕ} {xs ys : List ℕ}
    (hx : visit M step last fuel x = some xs) (hy : visit M step last fuel' x = some ys) :
    xs = ys := by
  induction fuel generalizing fuel' x xs ys with
  | zero => cases hx
  | succ fuel ih =>
    cases fuel' with
    | zero => cases hy
    | succ fuel' =>
      rw [visit] at hx hy
      split at hx
      · next goes =>
        rw [if_pos goes] at hy
        obtain ⟨xs', first, rfl⟩ := map_eq_some_iff.mp hx
        obtain ⟨ys', second, rfl⟩ := map_eq_some_iff.mp hy
        rw [ih first second]
      · next stops =>
        rw [if_neg stops] at hy
        exact some.inj (hx.symm.trans hy)

lemma visit_eq (pos : 0 < step) (ends : last + step < M)
    (reaches : x + turns * step = last) (enough : turns + 2 ≤ fuel) :
    visit M step last fuel x = some (steps step turns x) := by
  obtain ⟨fuel, rfl⟩ := Nat.exists_eq_add_of_le' enough
  induction turns generalizing x with
  | zero =>
    have next : (x + step) % M = x + step := mod_eq_of_lt (by omega)
    rw [visit, if_pos (by omega), next, visit_past (by omega), map_some, steps]
  | succ turns ih =>
    rw [succ_mul] at reaches
    have next : (x + step) % M = x + step := mod_eq_of_lt (by omega)
    change visit M step last (fuel + (turns + 2) + 1) x = _
    rw [visit, if_pos (by omega), next, ih (by omega) (by omega), map_some, steps]

lemma add_step_le (divides : step ∣ M) (aligned : step ∣ x) (word : x < M) : x + step ≤ M := by
  obtain ⟨a, rfl⟩ := aligned
  obtain ⟨m, rfl⟩ := divides
  rw [← mul_succ]
  exact Nat.mul_le_mul_left step (Nat.lt_of_mul_lt_mul_left word)

lemma visit_endless (divides : step ∣ M) (top : last + step = M)
    (aligned : step ∣ x) (word : x < M) (fuel : ℕ) : visit M step last fuel x = none := by
  induction fuel generalizing x with
  | zero => rfl
  | succ fuel ih =>
    have notPast := add_step_le divides aligned word
    have again : visit M step last fuel ((x + step) % M) = none :=
      ih ((Nat.dvd_mod_iff divides).mpr (Nat.dvd_add aligned (Nat.dvd_refl step)))
        (mod_lt _ (by omega))
    rw [visit, if_pos (by omega), again, map_none]

end Strides

/-!
## Interleaving

Blocks of `B` consecutive numbers are dealt out in turn to `n` owners, and every owner counts what
it gets from zero. A number is known by its owner and its count there, and as long as every owner
has got equally many blocks the counts have no gaps.
-/

namespace Interleave

open Nat

variable (B n : ℕ)

def owner (a : ℕ) : ℕ := a / B % n

def offset (a : ℕ) : ℕ := a / B / n * B + a % B

/-- The number that the owner `m` counts as `x`. -/
def number (m x : ℕ) : ℕ := (x / B * n + m) * B + x % B

variable {B n} {m : ℕ}

lemma block_add_div {r : ℕ} (below : r < B) (q : ℕ) : (q * B + r) / B = q := by
  rw [mul_comm, mul_add_div (zero_lt_of_lt below), div_eq_of_lt below, add_zero]

lemma block_add_mod {r : ℕ} (below : r < B) (q : ℕ) : (q * B + r) % B = r := by
  rw [mul_comm, mul_add_mod, mod_eq_of_lt below]

section

variable (positive : 0 < B)

include positive

lemma number_div (x : ℕ) : number B n m x / B = x / B * n + m := block_add_div (mod_lt x positive) _

lemma number_owner_offset (a : ℕ) : number B n (owner B n a) (offset B n a) = a := by
  have rest : a % B < B := mod_lt a positive
  rw [number, offset, owner, block_add_div rest, block_add_mod rest, div_add_mod', div_add_mod']

lemma owner_number (isOwner : m < n) (x : ℕ) : owner B n (number B n m x) = m := by
  rw [owner, number_div positive, block_add_mod isOwner]

lemma offset_number (isOwner : m < n) (x : ℕ) : offset B n (number B n m x) = x := by
  rw [offset, number_div positive, block_add_div isOwner, number,
    block_add_mod (mod_lt x positive), div_add_mod']

lemma owner_offset_injective {a b : ℕ} (owners : owner B n a = owner B n b)
    (offsets : offset B n a = offset B n b) : a = b := by
  rw [← number_owner_offset (n := n) positive a, owners, offsets, number_owner_offset positive]

lemma number_lt_iff (isOwner : m < n) (k x : ℕ) : number B n m x < n * k * B ↔ x < k * B := by
  rw [← div_lt_iff_lt_mul positive, ← div_lt_iff_lt_mul positive, number_div positive]
  constructor
  · intro below
    refine Nat.lt_of_mul_lt_mul_right (a := n) ?_
    rw [mul_comm k]
    exact lt_of_le_of_lt (le_add_right _ m) below
  · intro below
    calc x / B * n + m < x / B * n + n := Nat.add_lt_add_left isOwner _
      _ = (x / B + 1) * n := (succ_mul _ n).symm
      _ ≤ k * n := mul_le_mul_right n below
      _ = n * k := mul_comm k n

end

lemma offset_le (a : ℕ) : offset B n a ≤ a := by
  calc a / B / n * B + a % B ≤ a / B * B + a % B :=
        Nat.add_le_add_right (Nat.mul_le_mul_right B (Nat.div_le_self _ n)) _
    _ = a := div_add_mod' a B

end Interleave

/-!
## Orbits

The orbit of a point under a function, seen where it meets a predicate. From a point the search
goes on to the next meeting. Wherever the orbit meets the predicate later, searching over and over
comes by. For the steps of a rotation of the residues modulo `m` this is a question of a greatest
common divisor.
-/

namespace Orbits

section Search

variable {α : Type*} {f : α → α} {stop : α → Prop} {a b : α}

/-- The search from `a`, which takes a step at least, ends in `b`. -/
def Hits (f : α → α) (stop : α → Prop) (a b : α) : Prop :=
  ∃ k, f^[k + 1] a = b ∧ stop b ∧ ∀ j < k, ¬ stop (f^[j + 1] a)

lemma exists_hits {k : ℕ} (met : stop (f^[k + 1] a)) : ∃ j ≤ k, Hits f stop a (f^[j + 1] a) := by
  classical
  have meets : ∃ k, stop (f^[k + 1] a) := ⟨k, met⟩
  exact ⟨Nat.find meets, Nat.find_min' meets met, Nat.find meets, rfl, Nat.find_spec meets,
    fun _ before => Nat.find_min meets before⟩

lemma transGen_hits {k : ℕ} (met : stop (f^[k + 1] a)) :
    Relation.TransGen (Hits f stop) a (f^[k + 1] a) := by
  induction k using Nat.strongRecOn generalizing a with
  | ind k ih =>
    obtain ⟨j, low, hits⟩ := exists_hits met
    rcases low.eq_or_lt with rfl | before
    · exact .single hits
    · -- the rest of the way, from the first meeting on
      have rest : f^[k + 1] a = f^[k - j - 1 + 1] (f^[j + 1] a) := by
        rw [← Function.iterate_add_apply]
        congr 1
        omega
      rw [rest] at met ⊢
      exact .head hits (ih (k - j - 1) (by omega) met)

end Search

/-- A rotation of the residues by `a` leads to every residue that differs by a multiple of the
greatest common divisor. -/
theorem exists_rotation {m : ℕ} (positive : 0 < m) {a c d : ℤ} (divides : (a.gcd m : ℤ) ∣ d - c) :
    ∃ j : ℕ, c + (j + 1) * a ≡ d [ZMOD m] := by
  obtain ⟨e, factor⟩ := divides
  have bezout := Int.gcd_eq_gcd_ab a m
  -- a multiple of `m` makes the coefficient positive
  refine ⟨((a.gcdA m * e - 1) % m).toNat, ?_⟩
  have nonneg : 0 ≤ (a.gcdA m * e - 1) % m := Int.emod_nonneg _ (by omega)
  rw [Int.toNat_of_nonneg nonneg]
  have turns : (a.gcdA m * e - 1) % m + 1 ≡ a.gcdA m * e [ZMOD m] := by
    have shifted := (Int.mod_modEq (a.gcdA m * e - 1) m).add_right 1
    rwa [Int.sub_add_cancel] at shifted
  have whole : c + a.gcdA m * e * a = d + m * (-(a.gcdB m * e)) := by
    have target : d = c + (a * a.gcdA m + m * a.gcdB m) * e := by
      rw [← bezout, ← factor]
      ring
    rw [target]
    ring
  calc c + ((a.gcdA m * e - 1) % m + 1) * a
      ≡ c + a.gcdA m * e * a [ZMOD m] := (turns.mul_right a).add_left c
    _ = d + m * (-(a.gcdB m * e)) := whole
    _ ≡ d [ZMOD m] := Int.modEq_add_fac_self

end Orbits

/-!
## Stamped slots

Slots that are written in turn, again and again, where every write leaves the number of the current
pass modulo `M` in the slot. A reference to a slot keeps the stamp that it found there. The stamps
agree again when the slot was overwritten a multiple of `M` times, not only when it was not.
-/

namespace Stamps

open Nat

variable {M : ℕ}

/-- The stamp of a slot that was last written in the pass `pass`, which has reached the slot `edge`,
or in the pass before. -/
def Current (M edge pass slot stamp : ℕ) : Prop :=
  (stamp + if edge ≤ slot then 1 else 0) % M = pass % M

def Refers (M stamp reference overwritten : ℕ) : Prop := (reference + overwritten) % M = stamp % M

variable {edge pass slot stamp reference overwritten : ℕ}

lemma Current.written : Current M (slot + 1) pass slot pass := by
  rw [Current, if_neg (by omega), add_zero]

section

variable (current : Current M edge pass slot stamp)

include current

lemma Current.elsewhere (other : slot ≠ edge) : Current M (edge + 1) pass slot stamp := by
  have same : edge + 1 ≤ slot ↔ edge ≤ slot := by omega
  rwa [Current, if_congr same rfl rfl]

lemma Current.wrap (last : slot < edge) : Current M 0 (pass + 1) slot stamp := by
  rw [Current, if_neg (not_le.mpr last), add_zero] at current
  rw [Current, if_pos (zero_le slot), add_mod, current, ← add_mod]

lemma Current.mod : Current M edge (pass % M) slot stamp := by
  rwa [Current, mod_mod]

end

lemma Refers.overwrite (refers : Refers M stamp reference overwritten)
    (current : Current M edge pass edge stamp) : Refers M pass reference (overwritten + 1) := by
  rw [Current, if_pos (le_refl edge)] at current
  rw [Refers, ← add_assoc, add_mod, refers, ← add_mod, current]

lemma refers_new : Refers M stamp stamp 0 := rfl

lemma Refers.eq_iff (refers : Refers M stamp reference overwritten) (small : stamp < M)
    (low : reference < M) : reference = stamp ↔ M ∣ overwritten := by
  rw [Refers, mod_eq_of_lt small] at refers
  constructor
  · rintro rfl
    have multiple := sub_mod_eq_zero_of_mod_eq (refers.trans (mod_eq_of_lt low).symm)
    rw [Nat.add_sub_cancel_left] at multiple
    exact dvd_of_mod_eq_zero multiple
  · rintro ⟨passes, rfl⟩
    rwa [add_mul_mod_self_left, mod_eq_of_lt low] at refers

end Stamps

/-!
## Links and paths

A path follows links. A rank that changes by at most one along each link bounds the length of
every path from below.

A lane is a row of places, each linked to the next one. A closed lane also has a link between
its two ends. The distance on a lane is such a rank.
-/

namespace Links

variable {α : Type*} {link : α → α → Prop} {a c : α} {k : ℕ}

inductive Path (link : α → α → Prop) : ℕ → α → α → Prop where
  | refl (a : α) : Path link 0 a a
  | step {a b c : α} {k : ℕ} (first : link a b) (rest : Path link k b c) : Path link (k + 1) a c

lemma Path.rank_le {rank : α → ℤ} (near : ∀ a b, link a b → rank a ≤ rank b + 1)
    (path : Path link k a c) : rank a ≤ rank c + k := by
  induction path with
  | refl a => simp
  | step first rest ih =>
    have closer := near _ _ first
    omega

/-! ### Lanes -/

def OnLane (n a : ℤ) : Prop := 0 ≤ a ∧ a < n

def LaneLink (closed : Bool) (n a b : ℤ) : Prop :=
  |a - b| = 1 ∨ closed = true ∧ |a - b| = n - 1

def laneDist (closed : Bool) (n a b : ℤ) : ℤ :=
  if closed = true then min |a - b| (n - |a - b|) else |a - b|

section Lanes

variable {closed : Bool} {n a b c : ℤ}

lemma laneDist_self (positive : 0 ≤ n) : laneDist closed n a a = 0 := by
  cases closed <;> simp [laneDist, positive]

lemma laneDist_link (first : OnLane n a) (second : OnLane n b) (third : OnLane n c)
    (linked : LaneLink closed n a b) : laneDist closed n a c ≤ laneDist closed n b c + 1 := by
  obtain ⟨_, _⟩ := first
  obtain ⟨_, _⟩ := second
  obtain ⟨_, _⟩ := third
  cases closed with
  | false =>
    simp only [LaneLink, laneDist, Int.abs_eq_natAbs, Bool.false_eq_true, false_and, or_false,
      if_false] at linked ⊢
    omega
  | true =>
    simp only [LaneLink, laneDist, Int.abs_eq_natAbs, true_and, if_true] at linked ⊢
    omega

end Lanes

end Links
