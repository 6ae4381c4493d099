import Sniper.Cache.Sweep
import Sniper.Hierarchy.Controller

/-!
# The shared cache under reconfiguration

What `reconfigure` does to the L2 does not depend on the L1s, and what it does to
one set depends on that set and the row of its module only: every module is
switched as `switchWays` says, and every set is swept once.
-/

namespace Sniper.Hier

open List Cache CacheSet

variable {cfg : HierConfig} (h : Hier cfg) {i : Fin cfg.numL1}

section Frame

@[simp] lemma check_cache (holds : Bool) (a : Assertion) : (h.check holds a).cache = h.cache := by
  unfold check
  split <;> rfl

@[simp] lemma writeCacheBlock_cache (addr : IntPtr) : (h.writeCacheBlock addr).cache = h.cache := by
  unfold writeCacheBlock
  split
  · rfl
  · split
    · rfl
    · exact h.check_cache _ _

lemma cleanBlock_l2 (addr : IntPtr) (w : Fin (cfg.geom (.l1 i)).assoc) :
    (h.cleanBlock i addr w).cache .l2 = h.cache .l2 := by
  unfold cleanBlock
  split
  · simp [setCState, setCache, retrieveCacheBlock]
  · rfl

lemma changeState_l2 (addr : IntPtr) (w : Fin (cfg.geom (.l1 i)).assoc) (new : CState) :
    (h.changeState i addr w new).cache .l2 = h.cache .l2 := by
  unfold changeState
  split
  · simp [invalidateCacheBlock, setCache]
  · simp [setCState, setCache]
  · simp [setCState, setCache]
  · rfl

lemma updateCacheBlock_l2 (addr : IntPtr) (new : CState) :
    (h.updateCacheBlock i addr new).cache .l2 = h.cache .l2 := by
  unfold updateCacheBlock
  split
  · rfl
  · simp only [check_cache]
    rw [changeState_l2, cleanBlock_l2]

lemma updateAll_l2 (l1s : List (Fin cfg.numL1)) (addr : IntPtr) (new : CState) :
    (h.updateAll l1s addr new).cache .l2 = h.cache .l2 := by
  induction l1s generalizing h with
  | nil => rfl
  | cons i l1s ih =>
    exact (ih (h.updateCacheBlock i addr new)).trans (h.updateCacheBlock_l2 addr new)

lemma evictBlock_cache_l2 (b : CacheBlockInfo) : (h.evictBlock .l2 b).cache .l2 = h.cache .l2 := by
  simp only [evictBlock, check_cache]
  split
  · exact updateAll_l2 _ _ _ _
  · exact updateAll_l2 _ _ _ _

structure SameRows (c d : Cache (cfg.geom .l2)) : Prop where
  ways : c.isSubWayOn = d.isSubWayOn
  hits : c.l2Hits = d.l2Hits

lemma SameRows.trans {a b c : Cache (cfg.geom .l2)} (one : SameRows b a) (two : SameRows c b) :
    SameRows c a :=
  ⟨two.ways.trans one.ways, two.hits.trans one.hits⟩

lemma setCacheState_rows (addr : IntPtr) (st : CState) :
    SameRows ((h.setCacheState .l2 addr st).cache .l2) (h.cache .l2) := by
  unfold setCacheState
  split
  · constructor <;> simp [setCState, setCache, Cache.setCState]
  · exact ⟨rfl, rfl⟩

lemma insertCacheBlock_rows (addr : IntPtr) (st : CState) :
    SameRows ((h.insertCacheBlock .l2 addr st).cache .l2) (h.cache .l2) := by
  obtain ⟨ways, hits⟩ := (h.cache .l2).insertSingleLine_rows addr true
  have filled : SameRows ((h.cache .l2).insertSingleLine addr true).1 (h.cache .l2) := ⟨ways, hits⟩
  have start : ∀ k : Hier cfg, SameRows
      ((k.setCache .l2 ((h.cache .l2).insertSingleLine addr true).1).cache .l2) (h.cache .l2) := by
    intro k
    simpa [setCache] using filled
  simp only [insertCacheBlock, beq_self_eq_true, check_cache]
  split
  · exact (start _).trans (setCacheState_rows _ addr st)
  · rw [evictBlock_cache_l2]
    exact (start _).trans (setCacheState_rows _ addr st)

lemma transferWay_rows (s : Nat) (v : Fin (cfg.geom .l2).assoc) :
    SameRows ((h.transferWay s v).cache .l2) (h.cache .l2) := by
  have cleared : SameRows ((h.setCache .l2 ((h.cache .l2).put s v .empty)).cache .l2)
      (h.cache .l2) := by
    constructor <;> simp [setCache]
  simp only [transferWay]
  split
  · exact cleared.trans (insertCacheBlock_rows _ _ _)
  · exact cleared

lemma foldl_rows {ι : Type} {f : Hier cfg → ι → Hier cfg}
    (same : ∀ h a, SameRows ((f h a).cache .l2) (h.cache .l2)) (l : List ι) :
    SameRows ((l.foldl f h).cache .l2) (h.cache .l2) := by
  induction l generalizing h with
  | nil => exact ⟨rfl, rfl⟩
  | cons a l ih => exact (same h a).trans (ih (f h a))

lemma blockTransfer_rows (m maxWay minWay : Nat) :
    SameRows ((h.blockTransfer m maxWay minWay).cache .l2) (h.cache .l2) := by
  refine foldl_rows h (fun h s => ?_) _
  unfold transferSet
  split
  · exact ⟨rfl, rfl⟩
  · exact foldl_rows h (fun h v => h.transferWay_rows s v) _

lemma reconfigureModule_rows (m : Nat) : ((h.reconfigureModule m).cache .l2).isSubWayOn =
        Function.update (h.cache .l2).isSubWayOn m (h.switched m).on ∧
      ((h.reconfigureModule m).cache .l2).l2Hits = (h.cache .l2).l2Hits := by
  have switch : SameRows ((h.reconfigureModule m).cache .l2)
      ((h.setSubWays m (h.switched m).on).cache .l2) := by
    unfold reconfigureModule
    by_cases changed : (h.switched m).didChangeHappen = true
    · simp only [changed, if_true]
      exact blockTransfer_rows _ _ _ _
    · simp only [changed]
      exact ⟨rfl, rfl⟩
  rw [switch.ways, switch.hits]
  simp [setSubWays, setCache]

lemma foldl_reconfigureModule_rows (n : Nat) :
    (∀ m, (((range n).foldl reconfigureModule h).cache .l2).isSubWayOn m =
      if m < n then (h.switched m).on else (h.cache .l2).isSubWayOn m) ∧
    (((range n).foldl reconfigureModule h).cache .l2).l2Hits = (h.cache .l2).l2Hits := by
  induction n with
  | zero => simp
  | succ n ih =>
    rw [range_succ, foldl_append, foldl_cons, foldl_nil]
    generalize (range n).foldl reconfigureModule h = k at ih
    obtain ⟨ways, hits⟩ := k.reconfigureModule_rows n
    have row : k.switched n = h.switched n := by
      rw [switched, ih.1 n, ih.2, if_neg (Nat.lt_irrefl n), switched]
    refine ⟨fun m => ?_, hits.trans ih.2⟩
    rw [ways, row, Function.update_apply]
    by_cases hm : m = n
    · simp [hm]
    · rw [if_neg hm, ih.1 m]
      have : m < n + 1 ↔ m < n := by omega
      simp [this]

lemma reconfigure_rows : (∀ m, (h.reconfigure.cache .l2).isSubWayOn m =
      if m < cfg.l2.numModules then (h.switched m).on else (h.cache .l2).isSubWayOn m) ∧
    (h.reconfigure.cache .l2).l2Hits = (h.cache .l2).l2Hits :=
  h.foldl_reconfigureModule_rows _

end Frame

variable {h}

lemma insertCacheBlock_cache_l2 (addr : IntPtr) (placed : (h.cache .l2).Placed)
    (follower : ((h.cache .l2).setAt addr).isLeader = false)
    (absent : ∀ i, (((h.cache .l2).setAt addr).blocks i).tag ≠ (cfg.geom .l2).tagOf addr)
    (st : CState) :
    let c := h.cache .l2
    let s := (cfg.geom .l2).setIndex ((cfg.geom .l2).tagOf addr)
    let w := (c.sets s).replacementWayFlex (c.mask s)
    (h.insertCacheBlock .l2 addr st).cache .l2 =
      c.rewrite s (((c.sets s).moveToMRUFlex w (c.mask s)).setBlock w
        ⟨(cfg.geom .l2).tagOf addr, st⟩) [⟨c.sets s, c.mask s, w⟩] := by
  obtain ⟨found, filled⟩ := insertSingleLine_rewrite placed follower absent st
  have state : ∀ k : Hier cfg, k.cache = h.cache →
      ((k.setCache .l2 ((h.cache .l2).insertSingleLine addr true).1).setCacheState .l2 addr
        st).cache .l2 = ((h.cache .l2).insertSingleLine addr true).1.setCState
          ((cfg.geom .l2).setIndex ((cfg.geom .l2).tagOf addr))
          (((h.cache .l2).sets
            ((cfg.geom .l2).setIndex ((cfg.geom .l2).tagOf addr))).replacementWayFlex
            ((h.cache .l2).mask ((cfg.geom .l2).setIndex ((cfg.geom .l2).tagOf addr)))) st := by
    intro k hk
    simp [setCacheState, setCache, found, setCState]
  intro c s w
  rw [← filled]
  simp only [insertCacheBlock, beq_self_eq_true, check_cache, if_true]
  split
  · exact state _ (h.check_cache _ _)
  · rw [evictBlock_cache_l2]
    exact state _ (h.check_cache _ _)

variable {s : Nat}

lemma transferWay_l2 (placed : (h.cache .l2).Placed)
    (follower : ((h.cache .l2).sets s).isLeader = false) (v : Fin (cfg.geom .l2).assoc) :
    (h.transferWay s v).cache .l2 =
      (h.cache .l2).rewrite s (((h.cache .l2).sets s).relocate ((h.cache .l2).mask s) v)
        (((h.cache .l2).sets s).relocation ((h.cache .l2).mask s) v) := by
  have cleared : (h.setCache .l2 ((h.cache .l2).put s v .empty)).cache .l2 =
      (h.cache .l2).rewrite s (((h.cache .l2).sets s).setBlock v .empty) [] := by
    simp [setCache, put, setSet, rewrite]
  unfold transferWay relocate relocation
  by_cases dirty : (((h.cache .l2).sets s).blocks v).cstate = .modified
  · obtain ⟨valid, fresh⟩ := (placed s).fresh dirty
    obtain ⟨home, isLine⟩ := (placed s).home v valid
    have htag : (cfg.geom .l2).tagOf ((cfg.geom .l2).tagToAddress
        (((h.cache .l2).sets s).blocks v).tag) = (((h.cache .l2).sets s).blocks v).tag := isLine
    have placed' : ((h.setCache .l2 ((h.cache .l2).put s v .empty)).cache .l2).Placed := by
      simpa [setCache] using placed.put (fits_empty _ s _ v)
    have filled := insertCacheBlock_cache_l2
      ((cfg.geom .l2).tagToAddress (((h.cache .l2).sets s).blocks v).tag) placed'
      (by rw [setAt, htag, home, cleared, rewrite_sets_self]; exact follower)
      (by rw [setAt, htag, home, cleared, rewrite_sets_self]; exact fresh) .modified
    simp only [htag, home, cleared, rewrite_sets_self, rewrite_mask,
      rewrite_rewrite, nil_append] at filled
    simp only [dirty, if_true]
    exact filled
  · simp only [dirty, if_false]
    exact cleared

lemma transferWay_placed (placed : (h.cache .l2).Placed)
    (follower : ((h.cache .l2).sets s).isLeader = false) (v : Fin (cfg.geom .l2).assoc) :
    ((h.transferWay s v).cache .l2).Placed := by
  rw [transferWay_l2 placed follower v]
  intro r
  by_cases hr : r = s
  · subst hr
    rw [rewrite_sets_self]
    exact (placed r).relocate _ v
  · simpa [rewrite, hr] using placed r

lemma foldl_transferWay_l2 (placed : (h.cache .l2).Placed)
    (follower : ((h.cache .l2).sets s).isLeader = false) (vs : List (Fin (cfg.geom .l2).assoc)) :
    (vs.foldl (transferWay s) h).cache .l2 =
      (h.cache .l2).rewrite s (((h.cache .l2).sets s).sweep ((h.cache .l2).mask s) vs)
        (((h.cache .l2).sets s).sweepFills ((h.cache .l2).mask s) vs) := by
  induction vs generalizing h with
  | nil => exact (rewrite_self _ s).symm
  | cons v vs ih =>
    have step := transferWay_l2 placed follower v
    have placed' := transferWay_placed placed follower v
    rw [foldl_cons, ih placed' (by rw [step, rewrite_sets_self]; simpa using follower),
      step, rewrite_sets_self, rewrite_mask, rewrite_rewrite]
    rfl

/-- The L2 after the sets in `visited` have been swept. -/
structure SweptOn (c c' : Cache (cfg.geom .l2)) (visited : List Nat)
    (r : Switched (cfg.geom .l2).assoc) : Prop where
  sets : ∀ s, c'.sets s = if s ∈ visited then (c.sets s).swept r else c.sets s
  ways : c'.isSubWayOn = c.isSubWayOn
  hits : c'.l2Hits = c.l2Hits
  fills : ∀ f ∈ c'.fills, f ∈ c.fills ∨ ∃ s ∈ visited, f ∈ (c.sets s).sweptFills r

variable {r : Switched (cfg.geom .l2).assoc}

lemma SweptOn.placed {c c' : Cache (cfg.geom .l2)} {visited : List Nat}
    (swept : SweptOn c c' visited r) (placed : c.Placed) : c'.Placed := by
  intro s
  rw [swept.sets]
  split
  · exact (placed s).swept r
  · exact placed s

lemma transferSet_l2 (placed : (h.cache .l2).Placed) (s : Nat) (changed : r.didChangeHappen = true)
    (row : (h.cache .l2).mask s = r.on) :
    SweptOn (h.cache .l2) ((h.transferSet r.max r.min s).cache .l2) [s] r := by
  unfold transferSet
  cases leader : ((h.cache .l2).sets s).isLeader with
  | true =>
    refine ⟨fun u => ?_, rfl, rfl, fun f hf => Or.inl hf⟩
    by_cases hu : u = s
    · subst hu
      simp [swept, leader]
    · simp [hu]
  | false =>
    simp only [Bool.false_eq_true, if_false]
    rw [foldl_transferWay_l2 placed leader, row]
    refine ⟨fun u => ?_, rfl, rfl, fun f hf => ?_⟩
    · by_cases hu : u = s
      · subst hu
        simp [swept, leader, changed]
      · simp [rewrite, hu]
    · refine (mem_append.mp hf).imp id fun new => ⟨s, by simp, ?_⟩
      simpa [sweptFills, leader, changed] using new

lemma foldl_transferSet_l2 (placed : (h.cache .l2).Placed) (visited : List Nat)
    (once : visited.Nodup) (changed : r.didChangeHappen = true)
    (rows : ∀ s ∈ visited, (h.cache .l2).mask s = r.on) :
    SweptOn (h.cache .l2) ((visited.foldl (transferSet r.max r.min) h).cache .l2) visited r := by
  induction visited generalizing h with
  | nil => exact ⟨by simp, rfl, rfl, fun f hf => Or.inl hf⟩
  | cons s visited ih =>
    obtain ⟨notLater, once⟩ := nodup_cons.mp once
    have first := transferSet_l2 placed s changed (rows s (by simp))
    have rest := ih (first.placed placed) once fun u hu => by
      rw [mask, first.ways]
      exact rows u (mem_cons_of_mem s hu)
    rw [foldl_cons]
    refine ⟨fun u => ?_, rest.ways.trans first.ways, rest.hits.trans first.hits, fun f hf => ?_⟩
    · rw [rest.sets, first.sets]
      by_cases hu : u = s
      · subst hu
        simp [notLater]
      · simp [hu]
    · rcases rest.fills f hf with h | ⟨u, hu, h⟩
      · rcases first.fills f h with h | ⟨u, hu, h⟩
        · exact .inl h
        · exact .inr ⟨u, by simpa using Or.inl (mem_singleton.mp hu), h⟩
      · have away : u ∉ [s] := by
          intro here
          rw [mem_singleton.mp here] at hu
          exact notLater hu
        rw [first.sets, if_neg away] at h
        exact .inr ⟨u, mem_cons_of_mem s hu, h⟩

variable {m : Nat}

lemma mem_moduleSets : s ∈ moduleSets cfg m ↔ s / 512 = m := by
  rw [moduleSets, (show (cfg.geom .l2).HasModules from cfg.l2_modules).moduleSize_eq, mem_range'_1]
  omega

lemma moduleOf_eq (hs : s < cfg.l2.numSets) : (cfg.geom .l2).moduleOf s = s / 512 :=
  (show (cfg.geom .l2).HasModules from cfg.l2_modules).moduleOf_eq hs

lemma div_lt_numModules : s / 512 < cfg.l2.numModules ↔ s < cfg.l2.numSets := by
  have := cfg.l2_modules.numSets_eq
  omega

lemma reconfigureModule_l2 (placed : (h.cache .l2).Placed) (hm : m < cfg.l2.numModules) :
    SweptOn ((h.setSubWays m (h.switched m).on).cache .l2)
      ((h.reconfigureModule m).cache .l2) (moduleSets cfg m) (h.switched m) := by
  have placed' : ((h.setSubWays m (h.switched m).on).cache .l2).Placed := by
    intro s
    simpa [setSubWays, setCache] using placed s
  cases changed : (h.switched m).didChangeHappen with
  | false =>
    have result : h.reconfigureModule m = h.setSubWays m (h.switched m).on := by
      simp [reconfigureModule, changed]
    rw [result]
    refine ⟨fun s => ?_, rfl, rfl, fun f hf => Or.inl hf⟩
    simp [swept, changed]
  | true =>
    have result : h.reconfigureModule m = (h.setSubWays m (h.switched m).on).blockTransfer m
        (h.switched m).max (h.switched m).min := by
      simp [reconfigureModule, changed]
    have once : (moduleSets cfg m).Nodup := nodup_range'
    rw [result]
    refine foldl_transferSet_l2 placed' _ once changed fun s hs => ?_
    have hs := mem_moduleSets.mp hs
    rw [mask, moduleOf_eq (div_lt_numModules.mp (hs ▸ hm)), hs]
    simp [setSubWays, setCache]

/-- The L2 after the modules in `ms` have been reconfigured. -/
structure Reconfigured (h h' : Hier cfg) (ms : List Nat) : Prop where
  sets : ∀ s, (h'.cache .l2).sets s =
    if s / 512 ∈ ms then ((h.cache .l2).sets s).swept (h.switched (s / 512))
    else (h.cache .l2).sets s
  ways : ∀ m, (h'.cache .l2).isSubWayOn m =
    if m ∈ ms then (h.switched m).on else (h.cache .l2).isSubWayOn m
  hits : (h'.cache .l2).l2Hits = (h.cache .l2).l2Hits
  fills : ∀ f ∈ (h'.cache .l2).fills, f ∈ (h.cache .l2).fills ∨
    ∃ s, s / 512 ∈ ms ∧ f ∈ ((h.cache .l2).sets s).sweptFills (h.switched (s / 512))

lemma foldl_reconfigureModule_l2 (placed : (h.cache .l2).Placed) (ms : List Nat) (once : ms.Nodup)
    (range : ∀ m ∈ ms, m < cfg.l2.numModules) :
    Reconfigured h (ms.foldl reconfigureModule h) ms := by
  induction ms generalizing h with
  | nil => exact ⟨by simp, by simp, rfl, fun f hf => Or.inl hf⟩
  | cons m ms ih =>
    obtain ⟨notLater, once⟩ := nodup_cons.mp once
    have first := reconfigureModule_l2 placed (range m (by simp))
    have sets : ∀ s, ((h.reconfigureModule m).cache .l2).sets s =
        if s / 512 = m then ((h.cache .l2).sets s).swept (h.switched m)
        else (h.cache .l2).sets s := by
      intro s
      rw [first.sets]
      simp [mem_moduleSets, setSubWays, setCache]
    have ways : ∀ k, ((h.reconfigureModule m).cache .l2).isSubWayOn k =
        if k = m then (h.switched m).on else (h.cache .l2).isSubWayOn k := by
      intro k
      rw [first.ways]
      simp [setSubWays, setCache, Function.update_apply]
    have hits : ((h.reconfigureModule m).cache .l2).l2Hits = (h.cache .l2).l2Hits := by
      rw [first.hits]
      simp [setSubWays, setCache]
    have later : ∀ k ∈ ms, (h.reconfigureModule m).switched k = h.switched k := by
      intro k hk
      have hkm : k ≠ m := by rintro rfl; exact notLater hk
      rw [switched, ways, hits, if_neg hkm, switched]
    have placed' : ((h.reconfigureModule m).cache .l2).Placed := by
      intro s
      rw [sets]
      split
      · exact (placed s).swept _
      · exact placed s
    have rest := ih placed' once fun k hk => range k (mem_cons_of_mem m hk)
    rw [foldl_cons]
    refine ⟨fun s => ?_, fun k => ?_, rest.hits.trans hits, fun f hf => ?_⟩
    · rw [rest.sets, sets]
      by_cases hs : s / 512 = m
      · simp [hs, notLater]
      · by_cases hms : s / 512 ∈ ms
        · simp [hs, hms, later _ hms]
        · simp [hs, hms]
    · rw [rest.ways, ways]
      by_cases hk : k = m
      · simp [hk, notLater]
      · by_cases hms : k ∈ ms
        · simp [hk, hms, later _ hms]
        · simp [hk, hms]
    · rcases rest.fills f hf with hf | ⟨s, hs, hf⟩
      · rcases first.fills f hf with hf | ⟨s, hs, hf⟩
        · exact .inl (by simpa [setSubWays, setCache] using hf)
        · have hs := mem_moduleSets.mp hs
          refine .inr ⟨s, by simp [hs], ?_⟩
          rw [hs]
          simpa [setSubWays, setCache] using hf
      · have hsm : s / 512 ≠ m := by intro h; exact notLater (h ▸ hs)
        rw [later _ hs, sets, if_neg hsm] at hf
        exact .inr ⟨s, mem_cons_of_mem m hs, hf⟩

lemma reconfigure_l2 (placed : (h.cache .l2).Placed) :
    Reconfigured h h.reconfigure (range cfg.l2.numModules) :=
  foldl_reconfigureModule_l2 placed _ nodup_range fun _ hm => mem_range.mp hm

lemma switched_first (first : h.FirstOn) (m : Nat) : (h.switched m).on 0 = true :=
  switchWays_low (by simp [wMin]) (first m)

section

variable (placed : (h.cache .l2).Placed)

include placed

lemma reconfigure_firstOn (first : h.FirstOn) : h.reconfigure.FirstOn := by
  intro m
  rw [(reconfigure_l2 placed).ways]
  split
  · exact switched_first first m
  · exact first m

lemma reconfigure_placed : (h.reconfigure.cache .l2).Placed := by
  intro s
  rw [(reconfigure_l2 placed).sets]
  split
  · exact (placed s).swept _
  · exact placed s

variable {s : Nat}

lemma reconfigure_mask (hs : s < cfg.l2.numSets) :
    (h.reconfigure.cache .l2).mask s = (h.switched (s / 512)).on := by
  rw [mask, moduleOf_eq hs, (reconfigure_l2 placed).ways,
    if_pos (mem_range.mpr (div_lt_numModules.mpr hs))]

lemma reconfigure_seen (first : h.FirstOn) (seen : (h.cache .l2).Seen fun _ _ => False) :
    (h.reconfigure.cache .l2).Seen fun _ _ => False := by
  intro s u valid
  have hs : s < cfg.l2.numSets := by
    rw [← ((reconfigure_placed placed) s |>.home u valid).1]
    exact Geometry.setIndex_lt _ _
  have inRange : s / 512 ∈ range cfg.l2.numModules :=
    mem_range.mpr (div_lt_numModules.mpr hs)
  rw [reconfigure_mask placed hs]
  have sets := (reconfigure_l2 placed).sets s
  rw [if_pos inRange] at sets
  rw [sets] at valid ⊢
  rw [swept_isLeader]
  cases leader : ((h.cache .l2).sets s).isLeader with
  | true => exact .inl rfl
  | false =>
    refine .inr (.inl ?_)
    -- a block that was not moved was in a way that is on and did not fall
    have stays : (((h.cache .l2).sets s).blocks u).isValid = true →
        ¬ Falls ((h.cache .l2).isSubWayOn (s / 512)) ((h.cache .l2).l2Hits (s / 512)) u →
        (h.switched (s / 512)).on u = true := by
      intro before noFall
      refine (switchWays_on u).mpr (.inl ⟨?_, noFall⟩)
      rcases seen s u before with h | h | h
      · rw [leader] at h; cases h
      · rw [mask, moduleOf_eq hs] at h; exact h
      · exact h.elim
    by_cases changed : (h.switched (s / 512)).didChangeHappen = true
    · rw [swept, if_pos ⟨changed, leader⟩] at valid
      rcases sweep_valid (switched_first first _) _ valid with h | ⟨notVisited, before⟩
      · exact h
      · exact stays before fun falls => notVisited falls.visited.2
    · rw [swept, if_neg fun h => changed h.1] at valid
      exact stays valid fun falls => changed falls.visited.1

lemma reconfigure_block (seen : (h.cache .l2).Seen fun _ _ => False) {w : Fin (cfg.geom .l2).assoc}
    (valid : (((h.cache .l2).sets s).blocks w).isValid = true)
    (safe : ((h.cache .l2).sets s).isLeader = false → ∀ v,
      Falls ((h.cache .l2).isSubWayOn (s / 512)) ((h.cache .l2).l2Hits (s / 512)) v →
      v ≠ w ∧ (((h.cache .l2).sets s).blocks v).cstate ≠ .modified) :
    ((h.reconfigure.cache .l2).sets s).blocks w = ((h.cache .l2).sets s).blocks w := by
  have hs : s < cfg.l2.numSets := by
    rw [← (placed s |>.home w valid).1]
    exact Geometry.setIndex_lt _ _
  rw [(reconfigure_l2 placed).sets, if_pos (mem_range.mpr (div_lt_numModules.mpr hs)),
    CacheSet.swept]
  split
  · rename_i swept
    obtain ⟨changed, follower⟩ := swept
    -- a visited way that holds a block was on, and so it falls
    have falls : ∀ v ∈ wayRange _ (h.switched (s / 512)).max (h.switched (s / 512)).min,
        (((h.cache .l2).sets s).blocks v).isValid = true →
        Falls ((h.cache .l2).isSubWayOn (s / 512)) ((h.cache .l2).l2Hits (s / 512)) v := by
      intro v visited valid
      refine visited_falls changed visited ?_
      rcases seen s v valid with leader | on | pending
      · rw [follower] at leader; cases leader
      · rw [mask, moduleOf_eq hs] at on; exact on
      · exact pending.elim
    refine sweep_clean _ (fun v visited dirty => ?_) fun visited => ?_
    · have full := ((placed s).fresh dirty).1
      exact (safe follower v (falls v visited full)).2 dirty
    · exact (safe follower w (falls w visited valid)).1 rfl
  · rfl

end

end Sniper.Hier
