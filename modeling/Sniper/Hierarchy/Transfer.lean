import Sniper.Hierarchy.Moves
import Sniper.Hierarchy.SharedCache

/-!
# Reconfiguration of the hierarchy

`block_transfer` clears the ways that went off one block at a time. A dirty
block is filled in again, which may evict another line from all caches; a clean
block is dropped from the L2 behind the back of the L1s. Seen from the lines, a
reconfiguration is therefore a sweep that drops exactly the clean lines in the
ways that fall.
-/

namespace Sniper.Hier

open Cache CacheBlockInfo List

variable {cfg : HierConfig} {h h' h'' : Hier cfg}

/-- `h'` is `h` after blocks have been moved between ways of the L2 and the lines
in `dropped` have been lost from it. No assertion fires. -/
structure Transfers (h h' : Hier cfg) (dropped : Set IntPtr) : Prop where
  tidy : h'.Tidy
  swept : View.Sweeps dropped h.view h'.view
  leaders : ∀ s, ((h'.cache .l2).sets s).isLeader = ((h.cache .l2).sets s).isLeader
  evicting : h'.evicting = h.evicting
  failed : h'.failed = h.failed
  dirty : KeepsDirty h h'

lemma Transfers.refl (tidy : h.Tidy) : Transfers h h ∅ :=
  ⟨tidy, .refl _, fun _ => rfl, rfl, rfl, .refl h⟩

lemma Transfers.trans {first second : Set IntPtr} (one : Transfers h h' first)
    (two : Transfers h' h'' second) (present : ∀ t ∈ second, h'.view .l2 t ≠ .invalid) :
    Transfers h h'' (first ∪ second) where
  tidy := two.tidy
  swept := one.swept.trans two.swept present
  leaders := fun s => (two.leaders s).trans (one.leaders s)
  evicting := two.evicting.trans one.evicting
  failed := two.failed.trans one.failed
  dirty := one.dirty.trans two.dirty

/-- The clean lines in the ways `vs` of a set, which a leader set keeps. -/
def cleanLines (c : Cache (cfg.geom .l2)) (s : Nat) (vs : List (Fin (cfg.geom .l2).assoc)) :
    Set IntPtr :=
  {t | (c.sets s).isLeader = false ∧ ∃ v ∈ vs, ((c.sets s).blocks v).isValid = true ∧
    ((c.sets s).blocks v).cstate ≠ .modified ∧ ((c.sets s).blocks v).tag = t}

variable {s : Nat} {v : Fin (cfg.geom .l2).assoc}

lemma view_block (tidy : h.Tidy) (valid : (((h.cache .l2).sets s).blocks v).isValid = true) :
    h.view .l2 (((h.cache .l2).sets s).blocks v).tag = (((h.cache .l2).sets s).blocks v).cstate :=
  (tidy.placed .l2).lineState_block valid

variable {t : IntPtr}

lemma view_cleanLines (tidy : h.Tidy) {vs : List (Fin (cfg.geom .l2).assoc)}
    (ht : t ∈ cleanLines (h.cache .l2) s vs) :
    h.view .l2 t ≠ .invalid ∧ h.view .l2 t ≠ .modified := by
  obtain ⟨-, v, -, valid, clean, rfl⟩ := ht
  rw [view_block tidy valid]
  refine ⟨fun gone => ?_, clean⟩
  exact (isValid_iff _).mp valid ((tidy.live .l2 s v).mp gone)

lemma clear_view (tidy : h.Tidy) (s : Nat) (v : Fin (cfg.geom .l2).assoc) :
    (h.setCache .l2 ((h.cache .l2).put s v .empty)).Tidy ∧
      (h.setCache .l2 ((h.cache .l2).put s v .empty)).view = fun x t =>
        if x = .l2 ∧ t = (((h.cache .l2).sets s).blocks v).tag then .invalid else h.view x t := by
  have fits := CacheSet.fits_empty (cfg.geom .l2) s ((h.cache .l2).sets s) v
  have hb : empty.cstate = .invalid ↔ empty.tag = noTag := by simp
  refine ⟨tidy.setCache ((tidy.placed .l2).put fits) ((tidy.live .l2).put hb), ?_⟩
  rw [setCache_view, lineState_put (tidy.placed .l2) (tidy.live .l2) fits hb]
  funext x t
  by_cases hx : x = .l2
  · subst hx
    by_cases ht : t = noTag
    · subst ht
      simp [view, (tidy.live .l2).lineState_noTag]
    · simp [ht, view]
  · simp [hx]

lemma transferWay_leaders (placed : (h.cache .l2).Placed)
    (follower : ((h.cache .l2).sets s).isLeader = false) (v : Fin (cfg.geom .l2).assoc) (r : Nat) :
    (((h.transferWay s v).cache .l2).sets r).isLeader = ((h.cache .l2).sets r).isLeader := by
  rw [transferWay_l2 placed follower v]
  by_cases hr : r = s
  · subst hr
    simp
  · simp [rewrite, hr]

lemma transferWay_dirty (tidy : h.Tidy) (idle : h.evicting = none)
    (follower : ((h.cache .l2).sets s).isLeader = false)
    (dirty : (((h.cache .l2).sets s).blocks v).cstate = .modified) :
    Transfers h (h.transferWay s v) ∅ := by
  obtain ⟨tidy', lines⟩ := clear_view tidy s v
  obtain ⟨valid, -⟩ := (tidy.placed .l2 s).fresh dirty
  have block := view_block tidy valid
  rw [dirty] at block
  have line : cfg.line (cfg.address (((h.cache .l2).sets s).blocks v).tag) =
      (((h.cache .l2).sets s).blocks v).tag := line_address ((tidy.placed .l2 s).home v valid).2
  have unfolded : h.transferWay s v =
      (h.setCache .l2 ((h.cache .l2).put s v .empty)).insertCacheBlock .l2
        (cfg.address (((h.cache .l2).sets s).blocks v).tag) .modified := by
    simp only [transferWay, dirty, if_true]
    rfl
  obtain ⟨victim, hv, held, moved⟩ := insertCacheBlock_l2 tidy' idle
    (show CState.modified ≠ .invalid by simp) (by rw [lines, line]; simp)
  rw [← unfolded, line] at moved
  rw [line] at hv
  generalize (((h.cache .l2).sets s).blocks v).tag = tag at lines moved hv block
  rw [lines] at moved held
  have survives : some tag ≠ victim := Ne.symm hv
  -- the view is that of `h` except at the victim
  have after : ∀ x t, (h.transferWay s v).view x t =
      if some t = victim then .invalid else h.view x t := by
    intro x t
    rw [moved.view, View.fillL2]
    by_cases ht : some t = victim
    · rw [if_pos ht, if_pos ht]
    · rw [if_neg ht, if_neg ht]
      by_cases hx : x = .l2 ∧ t = tag
      · rw [if_pos hx, hx.1, hx.2, block]
      · rw [if_neg hx, if_neg hx]
  refine ⟨moved.tidy, fun t => Or.inr ⟨by simp, ?_⟩,
    transferWay_leaders (tidy.placed .l2) follower v, moved.evicting, moved.failed, ?_⟩
  · by_cases ht : some t = victim
    · refine .inr ⟨?_, fun x => by rw [after, if_pos ht]⟩
      have present := held t ht.symm
      have other : t ≠ tag := by rintro rfl; exact survives ht
      simpa [other] using present
    · exact .inl fun x => by rw [after, if_neg ht]
  · obtain ⟨log, hlog, keep⟩ := moved.dirty
    refine ⟨log, hlog, fun t ht => ?_⟩
    by_cases htag : t = tag
    · rw [after, htag, if_neg survives, block]
      exact .inl rfl
    · exact keep t (by rw [lines]; simpa [htag] using ht)

lemma transferWay_clean (tidy : h.Tidy) (follower : ((h.cache .l2).sets s).isLeader = false)
    (clean : (((h.cache .l2).sets s).blocks v).cstate ≠ .modified) :
    Transfers h (h.transferWay s v) (cleanLines (h.cache .l2) s [v]) := by
  obtain ⟨tidy', lines⟩ := clear_view tidy s v
  have unfolded : h.transferWay s v = h.setCache .l2 ((h.cache .l2).put s v .empty) := by
    simp only [transferWay, clean, if_false]
  have empty : ¬ (((h.cache .l2).sets s).blocks v).isValid = true →
      h.view .l2 (((h.cache .l2).sets s).blocks v).tag = .invalid := by
    intro invalid
    have empty : (((h.cache .l2).sets s).blocks v).tag = noTag := by
      simpa [isValid_iff] using invalid
    rw [empty]
    exact (tidy.live .l2).lineState_noTag
  refine ⟨by rw [unfolded]; exact tidy', fun t => ?_,
    transferWay_leaders (tidy.placed .l2) follower v, by rw [unfolded]; rfl,
    by rw [unfolded]; rfl, [], by rw [unfolded]; simp, fun t ht => Or.inl ?_⟩
  · rw [unfolded, lines]
    by_cases ht : t ∈ cleanLines (h.cache .l2) s [v]
    · obtain ⟨-, u, hu, -, -, htag⟩ := id ht
      rw [mem_singleton.mp hu] at htag
      exact .inl ⟨ht, by simp [htag], fun i => by simp⟩
    · refine .inr ⟨ht, .inl fun x => ?_⟩
      dsimp only
      split
      · rename_i hx
        obtain ⟨rfl, rfl⟩ := hx
        exact (empty fun valid => ht ⟨follower, v, by simp, valid, clean, rfl⟩).symm
      · rfl
  · rw [unfolded, lines]
    have other : t ≠ (((h.cache .l2).sets s).blocks v).tag := by
      rintro rfl
      by_cases valid : (((h.cache .l2).sets s).blocks v).isValid = true
      · exact clean (view_block tidy valid ▸ ht)
      · rw [empty valid] at ht
        cases ht
    simpa [other] using ht

lemma transferWay_transfers (tidy : h.Tidy) (idle : h.evicting = none)
    (follower : ((h.cache .l2).sets s).isLeader = false) (v : Fin (cfg.geom .l2).assoc) :
    Transfers h (h.transferWay s v) (cleanLines (h.cache .l2) s [v]) := by
  by_cases dirty : (((h.cache .l2).sets s).blocks v).cstate = .modified
  · have none : cleanLines (h.cache .l2) s [v] = ∅ := by
      ext t
      simp [cleanLines, dirty]
    rw [none]
    exact transferWay_dirty tidy idle follower dirty
  · exact transferWay_clean tidy follower dirty

/-- Transfers of different parts add up, as long as none changes what another one drops. -/
lemma foldl_transfers {ι : Type} (f : Hier cfg → ι → Hier cfg) (P : Hier cfg → Prop)
    (drops : Hier cfg → ι → Set IntPtr) (parts : List ι) (once : parts.Nodup)
    (step : ∀ h, P h → ∀ a ∈ parts, Transfers h (f h a) (drops h a) ∧ P (f h a))
    (apart : ∀ h, P h → ∀ a ∈ parts, ∀ b ∈ parts, b ≠ a → drops (f h a) b = drops h b)
    (present : ∀ h, P h → ∀ a ∈ parts, ∀ t ∈ drops h a, h.view .l2 t ≠ .invalid)
    (tidy : h.Tidy) (start : P h) :
    Transfers h (parts.foldl f h) {t | ∃ a ∈ parts, t ∈ drops h a} ∧ P (parts.foldl f h) := by
  induction parts generalizing h with
  | nil =>
    have none : {t | ∃ a ∈ ([] : List ι), t ∈ drops h a} = ∅ := by ext t; simp
    rw [none]
    exact ⟨.refl tidy, start⟩
  | cons a parts ih =>
    obtain ⟨notLater, once⟩ := nodup_cons.mp once
    have tail : ∀ {b}, b ∈ parts → b ∈ a :: parts := mem_cons_of_mem a
    obtain ⟨first, next⟩ := step h start a (by simp)
    obtain ⟨rest, done⟩ := ih once (fun k hk b hb => step k hk b (tail hb))
      (fun k hk b hb c hc => apart k hk b (tail hb) c (tail hc))
      (fun k hk b hb => present k hk b (tail hb)) first.tidy next
    have whole := first.trans rest (by
      rintro t ⟨b, hb, ht⟩
      exact present _ next b (tail hb) t ht)
    have union : drops h a ∪ {t | ∃ b ∈ parts, t ∈ drops (f h a) b} =
        {t | ∃ b ∈ a :: parts, t ∈ drops h b} := by
      ext t
      have same : ∀ b ∈ parts, (t ∈ drops (f h a) b ↔ t ∈ drops h b) := fun b hb => by
        rw [apart h start a (by simp) b (tail hb) (by rintro rfl; exact notLater hb)]
      constructor
      · rintro (ht | ⟨b, hb, ht⟩)
        · exact ⟨a, by simp, ht⟩
        · exact ⟨b, tail hb, (same b hb).mp ht⟩
      · rintro ⟨b, hb, ht⟩
        rcases mem_cons.mp hb with rfl | hb
        · exact .inl ht
        · exact .inr ⟨b, hb, (same b hb).mpr ht⟩
    rw [union] at whole
    exact ⟨whole, done⟩

lemma foldl_transferWay_transfers (tidy : h.Tidy) (idle : h.evicting = none)
    (follower : ((h.cache .l2).sets s).isLeader = false) (first : (h.cache .l2).mask s 0 = true)
    (vs : List (Fin (cfg.geom .l2).assoc)) (once : vs.Nodup)
    (off : ∀ v ∈ vs, (h.cache .l2).mask s v = false) :
    Transfers h (vs.foldl (transferWay s) h) (cleanLines (h.cache .l2) s vs) := by
  have loop := foldl_transfers (transferWay s)
    (fun k => k.Tidy ∧ k.evicting = none ∧ ((k.cache .l2).sets s).isLeader = false ∧
      (k.cache .l2).mask s = (h.cache .l2).mask s)
    (fun k v => cleanLines (k.cache .l2) s [v]) vs once ?_ ?_ ?_ tidy
    ⟨tidy, idle, follower, rfl⟩
  · have union : {t | ∃ v ∈ vs, t ∈ cleanLines (h.cache .l2) s [v]} =
        cleanLines (h.cache .l2) s vs := by
      ext t
      constructor
      · rintro ⟨v, hv, leader, u, hu, block⟩
        rw [mem_singleton.mp hu] at block
        exact ⟨leader, v, hv, block⟩
      · rintro ⟨leader, v, hv, block⟩
        exact ⟨v, hv, leader, v, by simp, block⟩
    rw [union] at loop
    exact loop.1
  · rintro k ⟨tidy, idle, follower, mask⟩ v -
    have step := transferWay_transfers tidy idle follower v
    refine ⟨step, step.tidy, step.evicting.trans idle, (step.leaders s).trans follower, ?_⟩
    rw [transferWay_l2 (tidy.placed .l2) follower v, rewrite_mask, mask]
  · rintro k ⟨tidy, idle, follower, mask⟩ v - u hu hne
    have kept : (((k.transferWay s v).cache .l2).sets s).blocks u =
        ((k.cache .l2).sets s).blocks u := by
      rw [transferWay_l2 (tidy.placed .l2) follower v, rewrite_sets_self]
      exact CacheSet.relocate_off (by rw [mask]; exact first) (by rw [mask]; exact off u hu) hne
    ext t
    simp [cleanLines, transferWay_leaders (tidy.placed .l2) follower, kept]
  · rintro k ⟨tidy, -⟩ v - t ht
    exact (view_cleanLines tidy ht).1

lemma wayRange_nodup (A max min : Nat) : (wayRange A max min).Nodup :=
  (nodup_reverse.mpr (nodup_finRange A)).filter _

lemma foldl_transferSet_transfers (tidy : h.Tidy) (idle : h.evicting = none)
    {r : Switched (cfg.geom .l2).assoc} (changed : r.didChangeHappen = true) (first : r.on 0 = true)
    (off : ∀ v ∈ wayRange _ r.max r.min, r.on v = false) (visited : List Nat)
    (once : visited.Nodup) (rows : ∀ s ∈ visited, (h.cache .l2).mask s = r.on) :
    Transfers h (visited.foldl (transferSet r.max r.min) h)
      {t | ∃ s ∈ visited, t ∈ cleanLines (h.cache .l2) s (wayRange _ r.max r.min)} := by
  refine (foldl_transfers (transferSet r.max r.min)
    (fun k => k.Tidy ∧ k.evicting = none ∧ ∀ s ∈ visited, (k.cache .l2).mask s = r.on)
    (fun k s => cleanLines (k.cache .l2) s (wayRange _ r.max r.min)) visited once
    ?_ ?_ ?_ tidy ⟨tidy, idle, rows⟩).1
  · rintro k ⟨tidy, idle, rows⟩ s hs
    have step : Transfers k (k.transferSet r.max r.min s)
        (cleanLines (k.cache .l2) s (wayRange _ r.max r.min)) := by
      unfold transferSet
      cases leader : ((k.cache .l2).sets s).isLeader with
      | true =>
        have none : cleanLines (k.cache .l2) s (wayRange _ r.max r.min) = ∅ := by
          ext t
          simp [cleanLines, leader]
        rw [none]
        exact .refl tidy
      | false =>
        exact foldl_transferWay_transfers tidy idle leader (by rw [rows s hs]; exact first) _
          (wayRange_nodup _ _ _) (by rw [rows s hs]; exact off)
    refine ⟨step, step.tidy, step.evicting.trans idle, fun u hu => ?_⟩
    rw [mask, (transferSet_l2 (tidy.placed .l2) s changed (rows s hs)).ways]
    exact rows u hu
  · rintro k ⟨tidy, -, rows⟩ s hs u - hne
    have kept := (transferSet_l2 (tidy.placed .l2) s changed (rows s hs)).sets u
    rw [if_neg (by simpa using hne)] at kept
    simp only [cleanLines, kept]
  · rintro k ⟨tidy, -⟩ s - t ht
    exact (view_cleanLines tidy ht).1

/-- The lines module `m` drops when it is reconfigured. -/
def moduleDrops (h : Hier cfg) (m : Nat) : Set IntPtr :=
  {t | (h.switched m).didChangeHappen = true ∧ ∃ s ∈ moduleSets cfg m,
    t ∈ cleanLines (h.cache .l2) s (wayRange _ (h.switched m).max (h.switched m).min)}

lemma setSubWays_transfers (tidy : h.Tidy) (m : Nat) (on : Fin (cfg.geom .l2).assoc → Bool) :
    Transfers h (h.setSubWays m on) ∅ := by
  have lines : (h.setSubWays m on).view = h.view := by
    rw [setSubWays, setCache_view]
    exact Function.update_eq_self Cntlr.l2 h.view
  refine ⟨tidy.setCache (fun s => tidy.placed .l2 s) (fun s => tidy.live .l2 s), ?_, fun s => ?_,
    rfl, rfl, [], by simp [setSubWays], fun t ht => Or.inl ?_⟩
  · rw [lines]
    exact .refl _
  · simp [setSubWays]
  · rw [lines]
    exact ht

lemma reconfigureModule_transfers (tidy : h.Tidy) (idle : h.evicting = none) (first : h.FirstOn)
    {m : Nat} (hm : m < cfg.l2.numModules) :
    Transfers h (h.reconfigureModule m) (moduleDrops h m) := by
  have switch := setSubWays_transfers tidy m (h.switched m).on
  have row : ∀ s ∈ moduleSets cfg m,
      ((h.setSubWays m (h.switched m).on).cache .l2).mask s = (h.switched m).on := by
    intro s hs
    have hs := mem_moduleSets.mp hs
    rw [mask, moduleOf_eq (div_lt_numModules.mp (hs ▸ hm)), hs]
    simp [setSubWays]
  cases changed : (h.switched m).didChangeHappen with
  | false =>
    have none : moduleDrops h m = ∅ := by ext t; simp [moduleDrops, changed]
    have result : h.reconfigureModule m = h.setSubWays m (h.switched m).on := by
      simp [reconfigureModule, changed]
    rw [none, result]
    exact switch
  | true =>
    have result : h.reconfigureModule m = (moduleSets cfg m).foldl
        (transferSet (h.switched m).max (h.switched m).min)
        (h.setSubWays m (h.switched m).on) := by
      simp [reconfigureModule, changed, blockTransfer]
    have sweep := foldl_transferSet_transfers switch.tidy (switch.evicting.trans idle) changed
      (switched_first first m) (fun v => visited_off changed) _
      (nodup_range' : (moduleSets cfg m).Nodup) row
    have whole := switch.trans sweep (by
      rintro t ⟨s, -, ht⟩
      exact (view_cleanLines switch.tidy ht).1)
    have drops : ∅ ∪ {t | ∃ s ∈ moduleSets cfg m,
        t ∈ cleanLines ((h.setSubWays m (h.switched m).on).cache .l2) s
          (wayRange _ (h.switched m).max (h.switched m).min)} = moduleDrops h m := by
      rw [Set.empty_union]
      ext t
      simp [moduleDrops, changed, cleanLines, setSubWays]
    rw [result, ← drops]
    exact whole

def doomed (h : Hier cfg) : Set IntPtr :=
  {t | ∃ s v, s < cfg.l2.numSets ∧ ((h.cache .l2).sets s).isLeader = false ∧
    Falls ((h.cache .l2).isSubWayOn (s / 512)) ((h.cache .l2).l2Hits (s / 512)) v ∧
    (((h.cache .l2).sets s).blocks v).isValid = true ∧
    (((h.cache .l2).sets s).blocks v).cstate ≠ .modified ∧
    (((h.cache .l2).sets s).blocks v).tag = t}

/-- The induction over modules, sets and ways: just the doomed lines are dropped. -/
lemma reconfigure_transfers (tidy : h.Tidy) (idle : h.evicting = none) (first : h.FirstOn)
    (seen : (h.cache .l2).Seen fun _ _ => False) : Transfers h h.reconfigure h.doomed := by
  have range : ∀ {m}, m ∈ range cfg.l2.numModules → m < cfg.l2.numModules := mem_range.mp
  have loop := (foldl_transfers reconfigureModule
    (fun k => k.Tidy ∧ k.evicting = none ∧ k.FirstOn) moduleDrops
    (List.range cfg.l2.numModules) List.nodup_range ?_ ?_ ?_ tidy ⟨tidy, idle, first⟩).1
  · have drops : {t | ∃ m ∈ List.range cfg.l2.numModules, t ∈ h.moduleDrops m} = h.doomed := by
      ext t
      constructor
      · rintro ⟨m, hm, changed, s, hs, follower, v, visited, valid, clean, htag⟩
        have hs := mem_moduleSets.mp hs
        subst hs
        have hs : s < cfg.l2.numSets := div_lt_numModules.mp (range hm)
        refine ⟨s, v, hs, follower, visited_falls changed visited ?_, valid, clean, htag⟩
        rcases seen s v valid with h | h | h
        · rw [follower] at h; cases h
        · rw [mask, moduleOf_eq hs] at h; exact h
        · exact h.elim
      · rintro ⟨s, v, hs, follower, falls, valid, clean, htag⟩
        exact ⟨s / 512, mem_range.mpr (div_lt_numModules.mpr hs), falls.visited.1, s,
          mem_moduleSets.mpr rfl, follower, v, falls.visited.2, valid, clean, htag⟩
    rw [drops] at loop
    exact loop
  · rintro k ⟨tidy, idle, first⟩ m hm
    have step := reconfigureModule_transfers tidy idle first (range hm)
    refine ⟨step, step.tidy, step.evicting.trans idle, fun n => ?_⟩
    have ways := (reconfigureModule_l2 (tidy.placed .l2) (range hm)).ways
    rw [ways]
    by_cases hn : n = m
    · subst hn
      simpa [setSubWays] using switched_first first n
    · simpa [setSubWays, hn] using first n
  · rintro k ⟨tidy, idle, first⟩ m hm n - hne
    have swept := reconfigureModule_l2 (tidy.placed .l2) (range hm)
    have row : (k.reconfigureModule m).switched n = k.switched n := by
      rw [switched, swept.ways, swept.hits]
      simp [setSubWays, hne, switched]
    have kept : ∀ s ∈ moduleSets cfg n, ((k.reconfigureModule m).cache .l2).sets s =
        (k.cache .l2).sets s := by
      intro s hs
      have other : s ∉ moduleSets cfg m := by
        rw [mem_moduleSets] at hs ⊢
        rw [hs]
        exact hne
      rw [swept.sets, if_neg other]
      simp [setSubWays]
    ext t
    simp only [moduleDrops, row, Set.mem_ofPred_eq]
    refine and_congr_right fun _ => exists_congr fun s => and_congr_right fun hs => ?_
    simp only [cleanLines, kept s hs]
  · rintro k ⟨tidy, -⟩ m - t ⟨-, s, -, ht⟩
    exact (view_cleanLines tidy ht).1

lemma doomed_clean (tidy : h.Tidy) (ht : t ∈ h.doomed) : h.view .l2 t ≠ .modified := by
  obtain ⟨s, v, -, follower, -, valid, clean, rfl⟩ := ht
  rw [view_block tidy valid]
  exact clean

end Sniper.Hier
