import Sniper.Hierarchy.SharedCache

/-!
# The ways that stay on

Whatever the hit counts and the contents of the caches are when the L2 is reconfigured, the ways
of a module that are on are the first ones, at least two of them, and the ways that a call of
`block_transfer` visits are those that have just been switched off. Both loops over ways run
downwards on unsigned numbers, which would not end if they had to go below zero.
-/

namespace Sniper

open List

section Ways

variable {A : Nat} {on : Fin A → Bool} {hits : Fin A → Nat}

/-- The number of 32-bit words, in which associativities and ways are held. -/
def words : Nat := 4294967296

/-- The ways that a loop from `v` down to `minWay` visits, counting down on unsigned words. -/
def descend (minWay : Nat) : (fuel v : Nat) → Option (List Nat)
  | 0, _ => none
  | fuel + 1, v =>
    if minWay ≤ v then (descend minWay fuel ((v + (words - 1)) % words)).map (v :: ·)
    else some []

/-- The ways that are on come first, and the ways below `W_min` are among them. -/
structure Leading (on : Fin A → Bool) : Prop where
  low : ∀ v, v.val < wMin → on v = true
  closed : ∀ u v, u ≤ v → on v = true → on u = true

/-- The ways that are on are those below a number that is at least `W_min`. -/
def OnBelow (on : Fin A → Bool) : Prop :=
  ∃ k, wMin ≤ k ∧ k ≤ A ∧ ∀ v, on v = true ↔ v.val < k

lemma Leading.onBelow (leading : Leading on) (wide : wMin ≤ A) : OnBelow on := by
  by_cases off : ∃ n, ∃ h : n < A, on ⟨n, h⟩ = false
  · classical
    obtain ⟨inside, first⟩ := Nat.find_spec off
    refine ⟨Nat.find off, ?_, inside.le, fun v => ⟨fun on_v => ?_, fun below => ?_⟩⟩
    · by_contra low
      rw [leading.low _ (Nat.lt_of_not_le low)] at first
      cases first
    · by_contra above
      rw [leading.closed ⟨_, inside⟩ v (Nat.le_of_not_lt above) on_v] at first
      cases first
    · by_contra off_v
      exact Nat.find_min off below ⟨v.isLt, by simpa using off_v⟩
  · refine ⟨A, wide, le_rfl, fun v => iff_of_true ?_ v.isLt⟩
    by_contra off_v
    exact off ⟨v, v.isLt, by simpa using off_v⟩

lemma leading_all : Leading (fun _ : Fin A => true) := ⟨fun _ _ => rfl, fun _ _ _ _ => rfl⟩

lemma Leading.switchWays (leading : Leading on) (hits : Fin A → Nat) :
    Leading (switchWays on hits).on := by
  refine ⟨fun v low => switchWays_low low (leading.low v low), fun u v le on_v => ?_⟩
  by_cases low : u.val < wMin
  · exact switchWays_low low (leading.low u low)
  obtain ⟨before, stays⟩ | ⟨-, w, above, hot⟩ := (switchWays_on v).mp on_v
  · refine (switchWays_on u).mpr (.inl ⟨leading.closed u v le before, fun falls => stays ?_⟩)
    obtain ⟨cold, -, -, unused⟩ := falls
    exact ⟨cold, (Nat.le_of_not_lt low).trans le, before, fun w above => unused w (le.trans above)⟩
  · exact (switchWays_on u).mpr (.inr ⟨Nat.le_of_not_lt low, w, le.trans above, hot⟩)

lemma switchOff_max (hits : Fin A → Nat) (vs : List (Fin A)) (r : Switched A) :
    (switchOff hits vs r).max = r.max ∨ ∃ e, r.on e = true ∧ (switchOff hits vs r).max = e.val := by
  induction vs generalizing r with
  | nil => exact .inl rfl
  | cons v vs ih =>
    rw [switchOff]
    split
    · next on_v =>
      split
      · obtain same | ⟨e, on_e, same⟩ := ih
          { on := Function.update r.on v false
            didChangeHappen := true
            max := if r.max < v.val then v.val else r.max
            min := if v.val < r.min then v.val else r.min }
        · rw [same]
          by_cases above : r.max < v.val
          · exact .inr ⟨v, on_v, if_pos above⟩
          · exact .inl (if_neg above)
        · refine .inr ⟨e, ?_, same⟩
          by_cases taken : e = v
          · exact taken ▸ on_v
          · exact (Function.update_of_ne taken false r.on).symm.trans on_e
      · exact .inl rfl
    · exact ih r

lemma switchWays_max (on : Fin A → Bool) (hits : Fin A → Nat) :
    (switchWays on hits).max = 0 ∨ ∃ e, on e = true ∧ (switchWays on hits).max = e.val := by
  rw [switchWays]
  split
  · exact .inl rfl
  · next unchanged =>
    refine (switchOff_max hits (offOrder A) _).imp_right ?_
    rintro ⟨e, on_e, same⟩
    refine ⟨e, ((switchOn_on e).mp on_e).resolve_right ?_, same⟩
    rintro ⟨-, w, -, hot⟩
    exact unchanged (switchOn_changed.mpr ⟨w, hot⟩)

lemma mem_wayRange {maxWay minWay : Nat} {v : Fin A} :
    v ∈ wayRange A maxWay minWay ↔ minWay ≤ v.val ∧ v.val ≤ maxWay := by
  simp [wayRange]

lemma Leading.range_iff (leading : Leading on)
    (changed : (Sniper.switchWays on hits).didChangeHappen = true) (v : Fin A) :
    (Sniper.switchWays on hits).min ≤ v.val ∧ v.val ≤ (Sniper.switchWays on hits).max ↔
      on v = true ∧ (Sniper.switchWays on hits).on v = false := by
  rw [← mem_wayRange]
  by_cases hot : ∃ v, Hot on hits v
  · obtain ⟨rows, nothing⟩ := switchWays_hot on hits hot
    rw [nothing]
    refine iff_of_false not_mem_nil ?_
    rintro ⟨before, off⟩
    rw [(rows v).mpr (.inl before)] at off
    cases off
  · obtain ⟨rows, fallen, range, -⟩ := switchWays_cold on hits (not_exists.mp hot)
    constructor
    · intro visited
      refine ⟨?_, visited_off changed visited⟩
      obtain ⟨e, falls⟩ := fallen.mp changed
      obtain none | ⟨top, on_top, same⟩ := switchWays_max on hits
      · have := (mem_wayRange.mp (range e falls)).2
        have : 2 ≤ e.val := falls.2.1
        omega
      · exact leading.closed v top (Fin.le_def.mpr (same ▸ (mem_wayRange.mp visited).2)) on_top
    · rintro ⟨before, off⟩
      refine range v (by_contra fun stays => ?_)
      rw [(rows v).mpr ⟨before, stays⟩] at off
      cases off

lemma switchWays_min_pos (on : Fin A → Bool) (hits : Fin A → Nat) (wide : wMin ≤ A) :
    0 < (switchWays on hits).min := by
  have start : 0 < A - 1 := by
    have : 2 ≤ A := wide
    omega
  rw [switchWays]
  split
  · exact start
  · obtain same | ⟨e, ⟨above, -⟩, same⟩ :=
      (switchOff_switchesOff hits (offOrder A) (offOrder_sorted A)
        ⟨(switchOn on hits).1, false, 0, A - 1⟩).least
    · exact same ▸ start
    · have : 2 ≤ e.val := mem_offOrder.mp above
      omega

lemma switchWays_hot_bounds (hot : ∃ v, Hot on hits v) :
    (switchWays on hits).max < (switchWays on hits).min := by
  rw [switchWays, if_pos (switchOn_changed.mpr hot)]
  obtain ⟨v, low, -⟩ := hot
  have : 2 ≤ v.val := low
  have := v.isLt
  change 0 < A - 1
  omega

lemma switchWays_max_lt (on : Fin A → Bool) (hits : Fin A → Nat) (wide : wMin ≤ A) :
    (switchWays on hits).max < A := by
  have : 2 ≤ A := wide
  obtain none | ⟨e, -, same⟩ := switchWays_max on hits
  · omega
  · exact same ▸ e.isLt

lemma wayRange_val {maxWay minWay : Nat} (inside : maxWay < A) :
    (wayRange A maxWay minWay).map Fin.val =
      (range' minWay (maxWay + 1 - minWay)).reverse := by
  have down : ((wayRange A maxWay minWay).map Fin.val).Pairwise (· > ·) := by
    rw [pairwise_map]
    exact (pairwise_reverse.mpr (pairwise_lt_finRange A)).filter _
  have range : (range' minWay (maxWay + 1 - minWay)).reverse.Pairwise (· > ·) :=
    pairwise_reverse.mpr pairwise_lt_range'
  refine down.eq_of_mem_iff range fun n => ?_
  rw [mem_map, mem_reverse, mem_range'_1]
  constructor
  · rintro ⟨v, visited, rfl⟩
    have := mem_wayRange.mp visited
    omega
  · intro between
    have below : n ≤ maxWay := by omega
    exact ⟨⟨n, below.trans_lt inside⟩, mem_wayRange.mpr ⟨between.1, below⟩, rfl⟩

lemma descend_eq {minWay : Nat} (pos : 0 < minWay) {v fuel : Nat} (word : v < words)
    (enough : v + 2 ≤ fuel) :
    descend minWay fuel v = some (range' minWay (v + 1 - minWay)).reverse := by
  induction v generalizing fuel with
  | zero =>
    obtain ⟨fuel, rfl⟩ := Nat.exists_eq_add_of_le' (Nat.le_of_succ_le enough)
    have empty : 0 + 1 - minWay = 0 := by omega
    rw [descend, if_neg (by omega), empty]
    rfl
  | succ v ih =>
    obtain ⟨fuel, rfl⟩ := Nat.exists_eq_add_of_le' (Nat.le_of_add_left_le enough)
    rw [descend]
    by_cases visited : minWay ≤ v + 1
    · have next : (v + 1 + (words - 1)) % words = v := by
        have : v + 1 + (words - 1) = v + words := by
          have : 0 < words := by decide
          omega
        rw [this, Nat.add_mod_right, Nat.mod_eq_of_lt (by omega)]
      have more : v + 1 + 1 - minWay = v + 1 - minWay + 1 := by omega
      have last : minWay + 1 * (v + 1 - minWay) = v + 1 := by omega
      rw [if_pos visited, next, ih (by omega) (by omega), more, range'_concat, last, reverse_append]
      rfl
    · have empty : v + 1 + 1 - minWay = 0 := by omega
      rw [if_neg visited, empty]
      rfl

lemma descend_switched (on : Fin A → Bool) (hits : Fin A → Nat) (wide : wMin ≤ A)
    (word : A ≤ words) {fuel : Nat} (enough : (switchWays on hits).max + 2 ≤ fuel) :
    descend (switchWays on hits).min fuel (switchWays on hits).max =
      some ((wayRange A (switchWays on hits).max (switchWays on hits).min).map Fin.val) := by
  have inside := switchWays_max_lt on hits wide
  rw [wayRange_val inside]
  exact descend_eq (switchWays_min_pos on hits wide) (inside.trans_le word) enough

end Ways

namespace Hier

variable {cfg : HierConfig}

/-- The caches as they are, but with the given rows of ways. -/
def withWays (h : Hier cfg) (on : Nat → Fin (cfg.geom .l2).assoc → Bool) : Hier cfg :=
  h.setCache .l2 { h.cache .l2 with isSubWayOn := on }

/-- The rows of ways after a call of `reconfigure` that finds the rest of the state as in `h`. -/
def waysAfter (on : Nat → Fin (cfg.geom .l2).assoc → Bool) (h : Hier cfg) :
    Nat → Fin (cfg.geom .l2).assoc → Bool :=
  ((h.withWays on).reconfigure.cache .l2).isSubWayOn

/-- The state in which `reconfigure` comes to module `x`. -/
def atModule (h : Hier cfg) (x : Nat) : Hier cfg := (List.range x).foldl reconfigureModule h

lemma switched_atModule (h : Hier cfg) (x : Nat) : (h.atModule x).switched x = h.switched x := by
  obtain ⟨ways, hits⟩ := h.foldl_reconfigureModule_rows x
  rw [atModule, switched, ways x, if_neg (Nat.lt_irrefl x), hits, switched]

lemma withWays_switched (h : Hier cfg) (on : Nat → Fin (cfg.geom .l2).assoc → Bool) (x : Nat) :
    (h.withWays on).switched x = switchWays (on x) ((h.cache .l2).l2Hits x) := by
  simp [switched, withWays, setCache]

lemma waysAfter_row {on : Nat → Fin (cfg.geom .l2).assoc → Bool} (h : Hier cfg) {x : Nat}
    (inside : x < cfg.l2.numModules) :
    waysAfter on h x = (switchWays (on x) ((h.cache .l2).l2Hits x)).on := by
  rw [waysAfter, (h.withWays on).reconfigure_rows.1 x, if_pos inside, withWays_switched]

/-- What `reconfigure` hands to `block_transfer` for module `x`: the ways from `max` down to `min`
are those that this call switches off, there are none if it switches a way on, and the loop over
them ends. -/
structure RangeExact (on : Nat → Fin (cfg.geom .l2).assoc → Bool) (h : Hier cfg) (x : Nat)
    (r : Switched (cfg.geom .l2).assoc) : Prop where
  off : ∀ v : Fin (cfg.geom .l2).assoc,
    r.min ≤ v.val ∧ v.val ≤ r.max ↔ on x v = true ∧ waysAfter on h x v = false
  empty : (∃ v, on x v = false ∧ waysAfter on h x v = true) → r.max < r.min
  ends : ∀ fuel, r.max + 2 ≤ fuel →
    descend r.min fuel r.max = some ((wayRange (cfg.geom .l2).assoc r.max r.min).map Fin.val)

lemma rangeExact {on : Nat → Fin (cfg.geom .l2).assoc → Bool} (h : Hier cfg) {x : Nat}
    (inside : x < cfg.l2.numModules) (leading : Leading (on x)) (wide : wMin ≤ cfg.l2.assoc)
    (word : cfg.l2.assoc ≤ words)
    (changed : (((h.withWays on).atModule x).switched x).didChangeHappen = true) :
    RangeExact on h x (((h.withWays on).atModule x).switched x) := by
  rw [switched_atModule, withWays_switched] at changed ⊢
  refine ⟨fun v => ?_, ?_, fun fuel enough => ?_⟩
  · rw [waysAfter_row h inside]
    exact leading.range_iff changed v
  · rintro ⟨v, before, after⟩
    rw [waysAfter_row h inside] at after
    obtain ⟨on_v, -⟩ | ⟨-, w, -, hot⟩ := (switchWays_on v).mp after
    · rw [before] at on_v
      cases on_v
    · exact switchWays_hot_bounds ⟨w, hot⟩
  · exact descend_switched (on x) _ wide word enough

/-- However often the L2 is reconfigured and whatever the hit counts are each time, the ways of
a module that are on are the first `k` for a `k` that is at least `W_min`, and `block_transfer` is
given the ways that have just been switched off. -/
theorem ways_stay_leading (wide : 3 ≤ cfg.l2.assoc) (word : cfg.l2.assoc ≤ words)
    (calls : List (Hier cfg)) :
    Runs.Throughout waysAfter (fun on => ∀ x < cfg.l2.numModules, OnBelow (on x) ∧ ∀ h : Hier cfg,
        (((h.withWays on).atModule x).switched x).didChangeHappen = true →
          RangeExact on h x (((h.withWays on).atModule x).switched x))
      ((Hier.new cfg).cache .l2).isSubWayOn calls := by
  have enough : wMin ≤ cfg.l2.assoc := Nat.le_of_succ_le wide
  refine Runs.throughout_invariant (I := fun on => ∀ x, Leading (on x)) ?_ ?_ ?_ calls
  · intro on h leading x
    rw [waysAfter, (h.withWays on).reconfigure_rows.1 x]
    by_cases inside : x < cfg.l2.numModules
    · rw [if_pos inside, withWays_switched]
      exact (leading x).switchWays _
    · rw [if_neg inside]
      simpa [withWays, setCache] using leading x
  · intro on leading x inside
    exact ⟨(leading x).onBelow enough,
      fun h changed => rangeExact h inside (leading x) enough word changed⟩
  · exact fun _ => leading_all

/-- With no hits the six ways above `W_min` go off, and stay off. -/
theorem twoCores_ways_leading :
    (switchWays (fun _ : Fin 8 => true) (fun _ => 0)).max = 7 ∧
      (switchWays (fun _ : Fin 8 => true) (fun _ => 0)).min = 2 ∧
      Runs.Throughout waysAfter
        (fun on => ∀ x < twoCores.l2.numModules, OnBelow (on x) ∧ ∀ h : Hier twoCores,
          (((h.withWays on).atModule x).switched x).didChangeHappen = true →
            RangeExact on h x (((h.withWays on).atModule x).switched x))
        ((Hier.new twoCores).cache .l2).isSubWayOn [Hier.new twoCores, Hier.new twoCores] :=
  ⟨by decide, by decide, ways_stay_leading (by decide) (by decide) _⟩

end Hier

end Sniper
