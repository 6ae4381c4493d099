import Mathlib.Algebra.BigOperators.Group.List.Basic
import Mathlib.Data.BitVec

/-!
# Statistics of the cheetah models

Before an update adds up what the models report, it should clear the table. Its loop clears as many
entries of each row as there are rows, and the sizes of the caches come after those.
-/

namespace Sniper.Cheetah

open Function List

inductive CheetahType where
  | cheetahLocal | cheetahBy2 | cheetahBy4 | cheetahBy8 | cheetahGlobal
  deriving DecidableEq

def numCheetahTypes : ℕ := 5

abbrev Row := ℕ → BitVec 64

def associativityLog2 : ℕ := 4

def lineSizeLog2 : ℕ := 6

/-- `hits` and `numentries` are what the simulated cache reports. -/
structure CheetahModel where
  minSetsLog2 : ℕ
  maxSetsLog2 : ℕ
  hits : ℕ → BitVec 64
  numentries : BitVec 64

namespace CheetahModel

def addHits (model : CheetahModel) : (sizes setsLog2 : ℕ) → Row → Row
  | 0, _, row => row
  | sizes + 1, setsLog2, row =>
    let sizeBits := associativityLog2 + setsLog2 + lineSizeLog2
    model.addHits sizes (setsLog2 + 1)
      (update row sizeBits (row sizeBits + model.hits setsLog2))

def updateStats (model : CheetahModel) (row : Row) : Row :=
  let row := model.addHits (model.maxSetsLog2 + 1 - model.minSetsLog2) model.minSetsLog2 row
  update row 0 (row 0 + model.numentries)

/-- What the model reports for entry `i`. -/
def reported (model : CheetahModel) (i : ℕ) : BitVec 64 :=
  if i = 0 then model.numentries
  else if 10 + model.minSetsLog2 ≤ i ∧ i ≤ 10 + model.maxSetsLog2 then model.hits (i - 10) else 0

lemma addHits_eq (model : CheetahModel) (sizes setsLog2 : ℕ) (row : Row) (i : ℕ) :
    model.addHits sizes setsLog2 row i = row i +
      if 10 + setsLog2 ≤ i ∧ i < 10 + setsLog2 + sizes then model.hits (i - 10) else 0 := by
  induction sizes generalizing setsLog2 row with
  | zero =>
    rw [if_neg (by omega), addHits]
    exact (add_zero _).symm
  | succ sizes ih =>
    have place : associativityLog2 + setsLog2 + lineSizeLog2 = 10 + setsLog2 := by
      simp only [associativityLog2, lineSizeLog2]
      omega
    rw [addHits, place, ih]
    by_cases here : i = 10 + setsLog2
    · rw [if_neg (by omega), if_pos (by omega), here, update_self, add_zero,
        Nat.add_sub_cancel_left]
    · rw [update_of_ne here]
      exact congrArg _ (if_congr (by omega) rfl rfl)

lemma updateStats_eq (model : CheetahModel) (row : Row) (i : ℕ) :
    model.updateStats row i = row i + model.reported i := by
  by_cases first : i = 0
  · rw [updateStats, reported, first, update_self, addHits_eq, if_neg (by omega), add_zero]
    rfl
  · rw [updateStats, reported, update_of_ne first, addHits_eq, if_neg first]
    exact congrArg _ (if_congr (by omega) rfl rfl)

end CheetahModel

/-- The loop that clears a row, up to `m_stats.size()`. -/
def clear (row : Row) : Row :=
  (range numCheetahTypes).foldl (fun row i => update row i 0) row

variable (models : CheetahType → List CheetahModel)

def update (stats : CheetahType → Row) : CheetahType → Row :=
  fun type => (models type).foldl (fun row model => model.updateStats row) (clear (stats type))

/-- What the entries should be. -/
def reports (type : CheetahType) (i : ℕ) : BitVec 64 :=
  ((models type).map (CheetahModel.reported · i)).sum

lemma clear_eq (row : Row) (i : ℕ) : clear row i = if i < numCheetahTypes then 0 else row i := by
  have steps (n : ℕ) : (range n).foldl (fun row i => Function.update row i 0) row i =
      if i < n then 0 else row i := by
    induction n with
    | zero => rfl
    | succ n ih =>
      rw [range_succ, foldl_concat, update_apply, ih]
      grind
  exact steps numCheetahTypes

lemma update_eq (stats : CheetahType → Row) (type : CheetahType) (i : ℕ) :
    update models stats type i = clear (stats type) i + reports models type i := by
  have steps (row : Row) : (models type).foldl (fun row model => model.updateStats row) row i =
      row i + reports models type i := by
    unfold reports
    induction models type generalizing row with
    | nil => exact (add_zero _).symm
    | cons model rest ih =>
      rw [foldl_cons, ih, model.updateStats_eq, map_cons, sum_cons, add_assoc]
  exact steps _

lemma updates_eq (stats : CheetahType → Row) (n : ℕ)
    (type : CheetahType) (i : ℕ) : (update models)^[n + 1] stats type i =
      (if i < numCheetahTypes then 0 else stats type i + n • reports models type i) +
        reports models type i := by
  rw [iterate_succ_apply', update_eq, clear_eq]
  congr 1
  split
  · rfl
  · next outside =>
    induction n with
    | zero => rw [zero_nsmul, add_zero, iterate_zero_apply]
    | succ n ih =>
      rw [iterate_succ_apply', update_eq, clear_eq, if_neg outside, ih, succ_nsmul, add_assoc]

/-- After one update or more of any table, with rows for the sizes up to `maxBits`: all entries are
what the models report exactly when those that the loop does not reach and what earlier updates of
the sequence added to them come to zero. -/
theorem updates_right_iff (maxBits : CheetahType → ℕ) (models : CheetahType → List CheetahModel)
    (stats : CheetahType → Row) (n : ℕ) :
    (∀ type, ∀ i ≤ maxBits type, (update models)^[n + 1] stats type i = reports models type i) ↔
      ∀ type, ∀ i ≤ maxBits type, numCheetahTypes ≤ i →
        stats type i + n • reports models type i = 0 := by
  refine forall_congr' fun type => forall₂_congr fun i _ => ?_
  rw [updates_eq, add_eq_right]
  by_cases reached : i < numCheetahTypes
  · exact iff_of_true (if_pos reached) fun outside => absurd reached (Nat.not_lt.mpr outside)
  · rw [if_neg reached]
    exact ⟨fun right _ => right, fun right => right (Nat.not_lt.mp reached)⟩

/-- One cache of sixteen lines has seen one hit. The second update counts it again. -/
theorem second_update_doubles :
    let models := fun type => if type = .cheetahLocal then [⟨0, 0, fun _ => 1, 2⟩] else []
    (update models)^[2] (fun _ _ => 0) .cheetahLocal 10 = 2 ∧
      reports models .cheetahLocal 10 = 1 := by
  decide

end Sniper.Cheetah
