import Sniper.Cache.Replacement
import Sniper.Hierarchy.SharedRuns

/-!
# Replacement in the shared cache

Along a run of the shared cache every gated fill evicts the least recently used
way that is on, provided no reconfiguration brings back a way whose counter is
already in use. Without that proviso the counters can tie, and the fill takes
the first way of the tie.
-/

namespace Sniper

open CacheSet Runs

namespace Cache

variable {g : Geometry} {c : Cache g} {s : Nat}

structure Tracked (c : Cache g) : Prop where
  ordered : ∀ s, s < g.numSets → (c.sets s).isLeader = false → (c.sets s).Ordered (c.mask s)
  fills : ∀ f ∈ c.fills, f.EvictsOldest

lemma Tracked.update {c' : Cache g} (tracked : c.Tracked) (s : Nat) (config : SameConfig c' c)
    (others : ∀ r, r ≠ s → c'.sets r = c.sets r)
    (ordered : s < g.numSets → (c.sets s).isLeader = false → (c'.sets s).Ordered (c.mask s))
    (fills : ∀ f ∈ c'.fills, f.EvictsOldest) : c'.Tracked := by
  refine ⟨fun r range follower => ?_, fills⟩
  rw [config.leaders] at follower
  rw [config.mask]
  by_cases hr : r = s
  · subst hr
    exact ordered range follower
  · rw [others r hr]
    exact tracked.ordered r range follower

lemma setSet_others (c : Cache g) (s : Nat) (set : CacheSet g.assoc) :
    ∀ r, r ≠ s → (c.setSet s set).sets r = c.sets r := by
  intro r hr
  simp [setSet, hr]

section

variable (tracked : c.Tracked)

include tracked

lemma Tracked.put {i : Fin g.assoc} {b : CacheBlockInfo}
    (shrinks : b.isValid = true → ((c.sets s).blocks i).isValid = true) :
    (c.put s i b).Tracked := by
  refine tracked.update s (c.put_sameConfig s i b) (c.setSet_others s _) (fun range follower => ?_)
    tracked.fills
  rw [put_sets_self]
  exact (tracked.ordered s range follower).setBlock shrinks

lemma Tracked.setLineState (addr : IntPtr) (st : CState) : (c.setLineState addr st).Tracked := by
  unfold Cache.setLineState
  split
  · exact tracked.put fun valid => valid
  · exact tracked

lemma Tracked.invalidate (addr : IntPtr) : (c.invalidateSingleLine addr).Tracked := by
  unfold invalidateSingleLine CacheSet.invalidate
  split
  · exact tracked.put (by simp)
  · refine tracked.update _ (c.setSet_sameConfig rfl) (c.setSet_others _ _)
      (fun range follower => ?_) tracked.fills
    simpa [setSet] using tracked.ordered _ range follower

lemma Tracked.hit (orderly : c.Orderly) (addr : IntPtr) (update : Bool) :
    (c.accessSingleLine addr update).1.Tracked := by
  unfold accessSingleLine
  split
  · exact tracked
  · rename_i i found
    split
    · refine tracked.update _ (c.setSet_sameConfig rfl) (c.setSet_others _ _)
        (fun range follower => ?_) tracked.fills
      have valid : ((c.setAt addr).blocks i).isValid = true := by
        rw [CacheBlockInfo.isValid_iff, find_tag found]
        exact g.tagOf_ne_noTag addr
      have on : c.mask (g.setIndex (g.tagOf addr)) i = true := by
        rcases orderly.seen _ i valid with h | h | h
        · rw [follower] at h; cases h
        · exact h
        · exact h.elim
      simpa [setSet] using (tracked.ordered _ range follower).hit on
    · exact tracked

lemma Tracked.fill (orderly : c.Orderly) {addr : IntPtr}
    (absent : c.find addr = none) (st : CState) :
    ((c.insertSingleLine addr true).1.setLineState addr st).Tracked := by
  have nowhere := find_eq_none.mp absent
  cases leader : (c.setAt addr).isLeader with
  | false =>
    obtain ⟨found, filled⟩ := insertSingleLine_rewrite orderly.placed leader nowhere st
    have first := orderly.first (g.moduleOf (g.setIndex (g.tagOf addr)))
    have ordered := tracked.ordered _ (g.setIndex_lt _) leader
    rw [Cache.setLineState, found]
    simp only
    rw [filled]
    refine tracked.update (g.setIndex (g.tagOf addr)) ⟨rfl, fun r => ?_⟩
      (fun r hr => by simp [rewrite, hr]) (fun _ _ => ?_) fun f hf => ?_
    · by_cases hr : r = g.setIndex (g.tagOf addr)
      · subst hr; simp
      · simp [rewrite, hr]
    · rw [rewrite_sets_self]
      exact ordered.fill first _
    · rcases List.mem_append.mp hf with h | h
      · exact tracked.fills f h
      · rw [List.mem_singleton.mp h]
        exact ordered.evictsOldest first
  | true =>
    refine Tracked.setLineState ?_ addr st
    have plain : (c.insertSingleLine addr true).1 = c.setSet (g.setIndex (g.tagOf addr))
        ((c.setAt addr).insert ⟨g.tagOf addr, .invalid⟩).set := by
      have notGated : ¬ (true && !(c.setAt addr).isLeader) = true := by simp [leader]
      rw [insertSingleLine]
      exact congrArg Prod.fst (if_neg notGated)
    rw [plain]
    refine tracked.update _ (c.setSet_sameConfig rfl) (c.setSet_others _ _)
      (fun range follower => ?_) tracked.fills
    rw [leader] at follower
    cases follower

end

lemma exists_fill_not_oldest {d : Cache g} (orderly : c.Orderly) (same : SameButFills c d)
    {addr : IntPtr} {s : Nat} (hs : g.setIndex (g.tagOf addr) = s) (absent : d.find addr = none)
    (follower : (d.sets s).isLeader = false)
    (full : ∀ v, d.mask s v = true → ((d.sets s).blocks v).isValid = true ∧
      ((d.sets s).blocks v).cstate ≠ .sharedUpgrading)
    {v w : Fin g.assoc} (hw : (d.sets s).replacementWayFlex (d.mask s) = w) (hvw : v ≠ w)
    (on : d.mask s v = true) (older : ¬ (d.sets s).touched.idxOf v < (d.sets s).touched.idxOf w)
    (st : CState) : ∃ f ∈ (c.apply (.fill addr st)).fills, ¬ f.EvictsOldest := by
  have sets := same.sets
  have mask : c.mask = d.mask := by
    funext r
    rw [Cache.mask, Cache.mask, same.ways]
  subst hs
  have leader : (c.setAt addr).isLeader = false := by rw [setAt, sets]; exact follower
  obtain ⟨found, filled⟩ := insertSingleLine_rewrite orderly.placed leader
    (find_eq_none.mp (same.find addr ▸ absent : c.find addr = none)) st
  refine ⟨⟨d.sets _, d.mask _, w⟩, ?_, fun oldest => older ((oldest full).2 v on hvw)⟩
  rw [Cache.apply, Cache.setLineState, found]
  simp only
  rw [filled, sets, mask, hw]
  exact List.mem_append_right _ (by simp)

lemma Tracked.apply (tracked : c.Tracked) (orderly : c.Orderly) {e : L2Event}
    (allowed : c.Allows e) : (c.apply e).Tracked := by
  cases e with
  | fill addr st => exact tracked.fill orderly allowed st
  | setState addr st => exact tracked.setLineState addr st
  | invalidate addr => exact tracked.invalidate addr
  | hit addr update => exact tracked.hit orderly addr update
  | lookup addr =>
    have fills : (c.peekSingleLine addr true true).1.fills = c.fills := by
      simp only [peekSingleLine, Bool.and_self, if_true]
      split <;> rfl
    refine ⟨fun r range follower => ?_, by rw [Cache.apply, fills]; exact tracked.fills⟩
    rw [Cache.apply, c.peekSingleLine_sets addr true true] at follower ⊢
    rw [(c.peekSingleLine_sameConfig addr true true).mask]
    exact tracked.ordered r range follower
  | reconfigure => exact tracked

end Cache

namespace Hier

variable {cfg : HierConfig} {h : Hier cfg}

def CountersDistinct (h : Hier cfg) : Prop :=
  ∀ s, s < cfg.l2.numSets → ((h.cache .l2).sets s).isLeader = false →
    Set.InjOn ((h.cache .l2).sets s).lruBits {v | (h.cache .l2).isSubWayOn (s / 512) v = true ∨
        Rises ((h.cache .l2).isSubWayOn (s / 512)) ((h.cache .l2).l2Hits (s / 512)) v}

/-- The event may happen, and a reconfiguration finds distinct counters. -/
def AllowsDistinct (h : Hier cfg) (e : L2Event) : Prop :=
  h.Allows e ∧ (e = .reconfigure → h.CountersDistinct)

lemma tracked_reconfigure (orderly : (h.cache .l2).Orderly) (tracked : (h.cache .l2).Tracked)
    (distinct : h.CountersDistinct) : (h.reconfigure.cache .l2).Tracked := by
  have whole := reconfigure_l2 orderly.placed
  -- every set is ordered under the ways its module has after the switch
  have switched : ∀ s, s < cfg.l2.numSets → ((h.cache .l2).sets s).isLeader = false →
      ((h.cache .l2).sets s).Ordered (h.switched (s / 512)).on := by
    intro s hs follower
    refine (tracked.ordered s hs follower).switch
      ((distinct s hs follower).mono fun v hv => ?_) fun v valid => ?_
    · exact ((switchWays_on v).mp hv).imp (fun on => on.1) id
    · rcases orderly.seen s v valid with leader | on | pending
      · rw [follower] at leader; cases leader
      · exact on
      · exact pending.elim
  refine ⟨fun s hs follower => ?_, fun f hf => ?_⟩
  · have sets := whole.sets s
    rw [if_pos (List.mem_range.mpr (div_lt_numModules.mpr hs))] at sets
    rw [sets, swept_isLeader] at follower
    rw [sets, reconfigure_mask orderly.placed hs]
    exact ((switched s hs follower).swept (switched_first orderly.first _)).1
  · rcases whole.fills f hf with old | ⟨s, hs, new⟩
    · exact tracked.fills f old
    · have hs : s < cfg.l2.numSets := div_lt_numModules.mp (List.mem_range.mp hs)
      cases leader : ((h.cache .l2).sets s).isLeader with
      | true =>
        rw [sweptFills, if_neg (by simp [leader])] at new
        cases new
      | false => exact ((switched s hs leader).swept (switched_first orderly.first _)).2 f new

lemma tracked_step (orderly : (h.cache .l2).Orderly) (tracked : (h.cache .l2).Tracked)
    {e : L2Event} (allowed : h.AllowsDistinct e) : ((h.l2Step e).cache .l2).Tracked := by
  by_cases he : e = .reconfigure
  · subst he
    exact tracked_reconfigure orderly tracked (allowed.2 rfl)
  · rw [l2Step_cache he]
    exact tracked.apply orderly allowed.1

lemma new_tracked (small : cfg.l2.assoc ≤ 256) : ((Hier.new cfg).cache .l2).Tracked :=
  ⟨fun _ _ _ => new_ordered small _ _, by simp [Hier.new, Cache.new]⟩

/-- With at most 256 ways, and when every reconfiguration finds distinct counters
in the ways that are on or come back, every gated fill that finds all ways that
are on taken evicts the least recently used of them. -/
theorem run_evicts_oldest (cfg : HierConfig) (small : cfg.l2.assoc ≤ 256) (es : List L2Event)
    (allowed : Guarded l2Step AllowsDistinct (Hier.new cfg) es) :
    ∀ f ∈ ((run l2Step (Hier.new cfg) es).cache .l2).fills, f.EvictsOldest := by
  have final := run_guarded
    (I := fun h : Hier cfg => (h.cache .l2).Orderly ∧ (h.cache .l2).Tracked)
    (fun k e hk ok => ⟨orderly_step hk.1 ok.1, tracked_step hk.1 hk.2 ok⟩)
    ⟨Cache.new_orderly _, new_tracked small⟩ allowed
  exact final.2.fills

def crowded : List L2Event :=
  [.reconfigure, .fill 0x0 .shared, .fill 0x40000 .shared, .fill 0x80000 .shared]

theorem run_evicts_oldest_crowded : Guarded l2Step AllowsDistinct (Hier.new twoCores) crowded ∧
    ∀ f ∈ ((run l2Step (Hier.new twoCores) crowded).cache .l2).fills, f.EvictsOldest := by
  have allowed : Guarded l2Step AllowsDistinct (Hier.new twoCores) crowded := by
    obtain ⟨⟨_, first, second, third, _⟩, _⟩ := run_next_new twoCores crowded (by decide +kernel)
    refine ⟨⟨trivial, fun _ s _ _ => ?_⟩, ⟨first, by simp⟩, ⟨second, by simp⟩, ⟨third, by simp⟩,
      trivial⟩
    exact (new_ordered (by decide) _ fun _ => true).distinct.mono (by simp)
  exact ⟨allowed, run_evicts_oldest twoCores (by decide) crowded allowed⟩

def tieRun : List L2Event :=
  [.fill 0xfc0 .shared, .fill 0x40fc0 .shared, .fill 0x80fc0 .shared,
    .fill 0x0 .shared, .fill 0x40000 .shared, .fill 0x80000 .shared, .reconfigure,
    .fill 0xc0000 .shared] ++ List.replicate 56 (.lookup 0x80fc0) ++
  [.reconfigure, .fill 0x100000 .shared, .hit 0xc0000 true, .fill 0x140000 .shared]

/-- Ways 0 and 2 then have the same counter, and the next fill evicts way 0 though
way 2 was touched before it. -/
theorem tieRun_evicts_newer :
    Guarded l2Step Allows (Hier.new twoCores) (tieRun ++ [.fill 0x180000 .shared]) ∧
    ∃ f ∈ ((run l2Step (Hier.new twoCores)
      (tieRun ++ [.fill 0x180000 .shared])).cache .l2).fills, ¬ f.EvictsOldest := by
  refine ⟨(run_next_new twoCores _ (by decide +kernel)).1, ?_⟩
  obtain ⟨allowed, closed⟩ := run_next_new twoCores tieRun (by decide +kernel)
  have facts : let d := run Cache.next (Cache.new (twoCores.geom .l2)) tieRun
      d.find 0x180000 = none ∧ (d.sets 0).isLeader = false ∧
      (∀ v, d.mask 0 v = true → ((d.sets 0).blocks v).isValid = true ∧
        ((d.sets 0).blocks v).cstate ≠ .sharedUpgrading) ∧
      (d.sets 0).replacementWayFlex (d.mask 0) = 0 ∧ d.mask 0 2 = true ∧
      ¬ (d.sets 0).touched.idxOf 2 < (d.sets 0).touched.idxOf 0 := by
    decide +kernel
  obtain ⟨absent, follower, full, chosen, on, older⟩ := facts
  rw [run_append, run_cons, run_nil, l2Step_cache (by simp)]
  exact Cache.exists_fill_not_oldest (run_orderly twoCores allowed) closed (by decide) absent
    follower full chosen (by decide) on older .shared

end Hier

end Sniper
