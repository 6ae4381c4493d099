import Sniper.Cache.Sweep

/-!
# Least recently used ways

The LRU counters of a set order the ways that are on by their last fill or hit
as long as they are pairwise distinct there. Fills age the ways that are on and
hits age all ways, so both keep the order; a way that is off keeps its old
counter, and switching it back on may bring in a counter that is already taken.
-/

namespace Sniper

open Recency

variable {A : Nat} [NeZero A]

omit [NeZero A] in
/-- If the fill found every way that is on valid and free to be replaced, it took
the way whose last fill or hit is the oldest. -/
def FillRecord.EvictsOldest (f : FillRecord A) : Prop :=
  (∀ v, f.isSubWay v = true → (f.before.blocks v).isValid = true ∧
    (f.before.blocks v).cstate ≠ .sharedUpgrading) →
  Recency.Oldest f.before.touched {v | f.isSubWay v = true} f.way

namespace CacheSet

omit [NeZero A] in
/-- The counters of the ways that are on are distinct, and sort the valid ones
among them by their last touch. -/
structure Ordered (s : CacheSet A) (on : Fin A → Bool) : Prop where
  distinct : Set.InjOn s.lruBits {v | on v = true}
  sorted : Recency.Sorted s.lruBits s.touched {v | on v = true ∧ (s.blocks v).isValid = true}

variable {s : CacheSet A} {on : Fin A → Bool} {v : Fin A} {b : CacheBlockInfo}

lemma replacementWayFlex_full (full : ∀ v, on v = true → (s.blocks v).isValid = true) :
    s.replacementWayFlex on = eldest s.lruBits (fun i => on i && s.isValidReplacement i) 0 := by
  have none : ((List.finRange A).takeWhile on).find? (fun i => !(s.blocks i).isValid) = none := by
    rw [List.find?_eq_none]
    intro v hv
    simp [full v (List.mem_takeWhile_imp hv)]
  simp only [replacementWayFlex, none]

lemma Ordered.evictsOldest (ordered : s.Ordered on) (first : on 0 = true) :
    FillRecord.EvictsOldest ⟨s, on, s.replacementWayFlex on⟩ := by
  intro full
  have valid : ∀ v, on v = true → (s.blocks v).isValid = true := fun v hv => (full v hv).1
  refine (ordered.sorted.mono fun v hv => ⟨hv, valid v hv⟩).oldest ordered.distinct
    (replacementWayFlex_on first) fun v hv => ?_
  rw [replacementWayFlex_full valid]
  refine le_eldest ?_
  have free : s.isValidReplacement v = true := by simpa [isValidReplacement] using (full v hv).2
  have hv : on v = true := hv
  simp [free, hv]

lemma Ordered.fill (ordered : s.Ordered on) (first : on 0 = true) (b : CacheBlockInfo) :
    ((s.moveToMRUFlex (s.replacementWayFlex on) on).setBlock
      (s.replacementWayFlex on) b).Ordered on := by
  have hw : on (s.replacementWayFlex on) = true := replacementWayFlex_on first
  refine ⟨touch_injOn (fun _ h => h) hw ordered.distinct, ?_⟩
  refine (ordered.sorted.touch (fun _ h => h.1) (fun _ h => h) hw ordered.distinct).mono ?_
  rintro v ⟨hv, valid⟩
  by_cases hvw : v = s.replacementWayFlex on
  · exact .inl hvw
  · rw [setBlock_of_ne _ _ hvw] at valid
    exact .inr ⟨hv, valid⟩

omit [NeZero A]

lemma Ordered.hit (ordered : s.Ordered on) {w : Fin A} (hw : on w = true) :
    (s.updateReplacementIndex w).Ordered on := by
  refine ⟨touch_injOn (fun _ _ => rfl) hw ordered.distinct, ?_⟩
  refine (ordered.sorted.touch (fun _ h => h.1) (fun _ _ => rfl) hw ordered.distinct).mono ?_
  rintro v ⟨hv, hvalid⟩
  exact .inr ⟨hv, hvalid⟩

lemma Ordered.setBlock (ordered : s.Ordered on)
    (shrinks : b.isValid = true → (s.blocks v).isValid = true) : (s.setBlock v b).Ordered on := by
  refine ⟨ordered.distinct, ordered.sorted.mono ?_⟩
  rintro u ⟨hu, valid⟩
  refine ⟨hu, ?_⟩
  by_cases huv : u = v
  · subst huv
    rw [setBlock_self] at valid
    exact shrinks valid
  · rwa [setBlock_of_ne _ _ huv] at valid

lemma Ordered.switch (ordered : s.Ordered on) {on' : Fin A → Bool}
    (distinct : Set.InjOn s.lruBits {v | on' v = true})
    (seen : ∀ v, (s.blocks v).isValid = true → on v = true) : s.Ordered on' :=
  ⟨distinct, ordered.sorted.mono fun _ h => ⟨seen _ h.2, h.2⟩⟩

variable [NeZero A]

lemma Ordered.relocate (ordered : s.Ordered on) (first : on 0 = true) (v : Fin A) :
    (s.relocate on v).Ordered on ∧ ∀ f ∈ s.relocation on v, f.EvictsOldest := by
  have cleared : (s.setBlock v .empty).Ordered on := ordered.setBlock (by simp)
  unfold CacheSet.relocate relocation
  split
  · refine ⟨cleared.fill first _, fun f hf => ?_⟩
    rw [List.mem_singleton.mp hf]
    exact cleared.evictsOldest first
  · exact ⟨cleared, by simp⟩

lemma Ordered.sweep (ordered : s.Ordered on) (first : on 0 = true) (vs : List (Fin A)) :
    (s.sweep on vs).Ordered on ∧ ∀ f ∈ s.sweepFills on vs, f.EvictsOldest := by
  induction vs generalizing s with
  | nil => exact ⟨ordered, by simp [sweepFills]⟩
  | cons v vs ih =>
    obtain ⟨step, fills⟩ := ordered.relocate first v
    obtain ⟨rest, more⟩ := ih step
    refine ⟨rest, fun f hf => ?_⟩
    rcases List.mem_append.mp hf with h | h
    · exact fills f h
    · exact more f h

lemma Ordered.swept {r : Switched A} (ordered : s.Ordered r.on) (first : r.on 0 = true) :
    (s.swept r).Ordered r.on ∧ ∀ f ∈ s.sweptFills r, f.EvictsOldest := by
  unfold CacheSet.swept sweptFills
  split
  · exact ordered.sweep first _
  · exact ⟨ordered, by simp⟩

omit [NeZero A] in
lemma new_ordered (small : A ≤ 256) (leader : Bool) (on : Fin A → Bool) :
    (CacheSet.new A leader).Ordered on := by
  constructor
  · intro v _ w _ same
    have hv := v.isLt
    have hw := w.isLt
    simp only [CacheSet.new] at same
    rw [Nat.mod_eq_of_lt (by omega), Nat.mod_eq_of_lt (by omega)] at same
    exact Fin.ext same
  · rintro v ⟨-, valid⟩
    simp [CacheSet.new] at valid

end CacheSet

/-! ### Blocks that are being upgraded -/

namespace CacheSet

variable {s : CacheSet A} {on : Fin A → Bool}

lemma replacementWay_full (full : ∀ v, (s.blocks v).isValid = true) :
    s.replacementWay = eldest s.lruBits s.isValidReplacement 0 := by
  have none : Scan.up (fun i => !(s.blocks i).isValid) = none :=
    Scan.up_eq_none.mpr fun i => by simp [full i]
  simp only [replacementWay, none]

lemma eldest_settled_iff (s : CacheSet A) (on : Fin A → Bool) :
    s.isValidReplacement (eldest s.lruBits (fun i => on i && s.isValidReplacement i) 0) = true ↔
      s.isValidReplacement 0 = true ∨
        ∃ i, on i = true ∧ s.isValidReplacement i = true ∧ 0 < s.lruBits i := by
  obtain ⟨fallback, young⟩ | ⟨found, older⟩ :=
    eldest_found s.lruBits (fun i => on i && s.isValidReplacement i) 0
  · rw [fallback, or_iff_left]
    rintro ⟨i, hon, free, older⟩
    have := young i (by simp [hon, free])
    omega
  · obtain ⟨hon, free⟩ := Bool.and_eq_true_iff.mp found
    exact iff_of_true free (.inr ⟨_, hon, free, older⟩)

/-- With all ways valid a replacement spares the blocks that are being upgraded just in case way
0 is not one of them or another block has a positive rank; a gated replacement does so among the
ways that are on. -/
theorem replacement_settled_iff (s : CacheSet A) : ((∀ v, (s.blocks v).isValid = true) →
      (s.isValidReplacement s.replacementWay = true ↔ s.isValidReplacement 0 = true ∨
          ∃ i, s.isValidReplacement i = true ∧ 0 < s.lruBits i)) ∧
    ∀ on : Fin A → Bool, (∀ v, on v = true → (s.blocks v).isValid = true) →
      (s.isValidReplacement (s.replacementWayFlex on) = true ↔ s.isValidReplacement 0 = true ∨
          ∃ i, on i = true ∧ s.isValidReplacement i = true ∧ 0 < s.lruBits i) := by
  refine ⟨fun full => ?_, fun on full => ?_⟩
  · rw [replacementWay_full full]
    simpa using s.eldest_settled_iff fun _ => true
  · rw [replacementWayFlex_full full]
    exact s.eldest_settled_iff on

omit [NeZero A] in
def setCState (s : CacheSet A) (tag : IntPtr) (cstate : CState) : CacheSet A :=
  match s.find tag with
  | some i => s.setBlock i { s.blocks i with cstate }
  | none => s

variable (A) in
def twoFilled : CacheSet A := (((new A false).insert ⟨1, .shared⟩).set.insert ⟨2, .shared⟩).set

/-- While the younger of two blocks is being upgraded, the older one is replaced. -/
theorem younger_upgrading_spared : let s : CacheSet 2 := (twoFilled 2).setCState 2 .sharedUpgrading
    s.isValidReplacement s.replacementWay = true ∧
      s.isValidReplacement (s.replacementWayFlex fun _ => true) = true := by
  intro s
  have settled := replacement_settled_iff s
  exact ⟨(settled.1 (by decide)).mpr (by decide), (settled.2 _ (by decide)).mpr (by decide)⟩

/-- While the older of two blocks, in way 0, is being upgraded, it is replaced all the same. -/
theorem older_upgrading_replaced : let s : CacheSet 2 := (twoFilled 2).setCState 1 .sharedUpgrading
    (∀ v, (s.blocks v).isValid = true) ∧ (∃ v, s.isValidReplacement v = true) ∧
      s.isValidReplacement s.replacementWay = false ∧
      s.isValidReplacement (s.replacementWayFlex fun _ => true) = false := by
  decide +kernel

end CacheSet

end Sniper
