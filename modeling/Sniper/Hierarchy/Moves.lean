import Sniper.Cache.Operations
import Sniper.Hierarchy.Controller

/-!
# What the controller operations do to the lines

Each operation of the controllers is described by what it does to the states of
the lines: lookups and write-backs, the snoops of the L1s, and fills with the
evictions they cause. No assertion fires on the way.
-/

namespace Sniper

open Cache View List

def HierConfig.line (cfg : HierConfig) (addr : IntPtr) : IntPtr := cfg.l2.tagOf addr

def HierConfig.address (cfg : HierConfig) (t : IntPtr) : IntPtr := cfg.l2.tagToAddress t

namespace Hier

variable {cfg : HierConfig} {h h' h'' : Hier cfg} {x : Cntlr cfg.numL1} {i : Fin cfg.numL1}
  {addr : IntPtr}

open HierConfig

lemma tagOf_eq (cfg : HierConfig) (x : Cntlr cfg.numL1) (addr : IntPtr) :
    (cfg.geom x).tagOf addr = cfg.line addr := by
  cases x with
  | l1 i => simp [geom, line, Geometry.tagOf, cfg.same_block i]
  | l2 => rfl

lemma tagToAddress_eq (cfg : HierConfig) (x : Cntlr cfg.numL1) (t : IntPtr) :
    (cfg.geom x).tagToAddress t = cfg.address t := by
  cases x with
  | l1 i => simp [geom, address, Geometry.tagToAddress, cfg.same_block i]
  | l2 => rfl

lemma line_address {t : IntPtr} (isLine : (cfg.geom x).IsLine t) :
    cfg.line (cfg.address t) = t := by
  rw [← tagToAddress_eq cfg x, ← tagOf_eq cfg x]
  exact isLine

def view (h : Hier cfg) : View cfg.numL1 IntPtr := fun x t => (h.cache x).lineState t

lemma getCacheState_eq (h : Hier cfg) (x : Cntlr cfg.numL1) (addr : IntPtr) :
    h.getCacheState x addr = h.view x (cfg.line addr) := by
  rw [← tagOf_eq cfg x]
  exact (h.cache x).getCacheState_eq addr

section SetCache

variable (h : Hier cfg) (x : Cntlr cfg.numL1) (c c' : Cache (cfg.geom x))

@[simp] lemma setCache_self : (h.setCache x c).cache x = c := by simp [setCache]

@[simp] lemma setCache_of_ne {y : Cntlr cfg.numL1} (hy : y ≠ x) :
    (h.setCache x c).cache y = h.cache y := by simp [setCache, hy]

@[simp] lemma setCache_evicting : (h.setCache x c).evicting = h.evicting := rfl

@[simp] lemma setCache_dram : (h.setCache x c).dram = h.dram := rfl

@[simp] lemma setCache_setCache : (h.setCache x c).setCache x c' = h.setCache x c' := by
  simp [setCache]

@[simp] lemma setCache_cache : h.setCache x (h.cache x) = h := by
  simp [setCache]

lemma setCache_view : (h.setCache x c).view = Function.update h.view x c.lineState := by
  funext y
  by_cases hy : y = x
  · subst hy
    funext t
    simp [view]
  · funext t
    simp [view, hy]

end SetCache

@[simp] lemma check_true (h : Hier cfg) (a : Assertion) : h.check true a = h := rfl

structure Tidy (h : Hier cfg) : Prop where
  placed : ∀ x, (h.cache x).Placed
  live : ∀ x, (h.cache x).Live

def KeepsDirty (h h' : Hier cfg) : Prop :=
  ∃ log, h'.dram = h.dram ++ log ∧ ∀ t, h.view .l2 t = .modified →
    h'.view .l2 t = .modified ∨ DramAccess.write (cfg.address t) ∈ log

lemma KeepsDirty.refl (h : Hier cfg) : KeepsDirty h h := ⟨[], by simp, fun _ ht => Or.inl ht⟩

lemma KeepsDirty.trans (first : KeepsDirty h h') (second : KeepsDirty h' h'') :
    KeepsDirty h h'' := by
  obtain ⟨log, hlog, keep⟩ := first
  obtain ⟨log', hlog', keep'⟩ := second
  refine ⟨log ++ log', by rw [hlog', hlog, append_assoc], fun t ht => ?_⟩
  rcases keep t ht with ht' | written
  · exact (keep' t ht').imp id (mem_append_right log)
  · exact .inr (mem_append_left log' written)

/-- What an operation that trips no assertion makes of the hierarchy: the caches
stay well formed and say `v` about the lines, a gated L2 stays gated, no dirty
line is lost, and nothing else changes. -/
structure Moves (h h' : Hier cfg) (v : View cfg.numL1 IntPtr) : Prop where
  tidy : h'.Tidy
  view : h'.view = v
  config : ∀ x, Cache.SameConfig (h'.cache x) (h.cache x)
  seen : h.FirstOn → ∀ pending, (h.cache .l2).Seen pending → (h'.cache .l2).Seen pending
  evicting : h'.evicting = h.evicting
  failed : h'.failed = h.failed
  dirty : KeepsDirty h h'

lemma Moves.refl (tidy : h.Tidy) : Moves h h h.view :=
  ⟨tidy, rfl, fun _ => .refl _, fun _ _ seen => seen, rfl, rfl, .refl h⟩

variable {v : View cfg.numL1 IntPtr}

lemma Moves.firstOn (moves : Moves h h' v) (first : h.FirstOn) : h'.FirstOn := by
  intro m
  rw [(moves.config .l2).ways]
  exact first m

lemma Moves.trans {v' : View cfg.numL1 IntPtr} (first : Moves h h' v)
    (second : Moves h' h'' v') : Moves h h'' v' where
  tidy := second.tidy
  view := second.view
  config := fun x => (second.config x).trans (first.config x)
  seen := fun on pending seen => second.seen (first.firstOn on) pending (first.seen on pending seen)
  evicting := second.evicting.trans first.evicting
  failed := second.failed.trans first.failed
  dirty := first.dirty.trans second.dirty

lemma Tidy.setCache (tidy : h.Tidy) {c : Cache (cfg.geom x)} (placed : c.Placed) (live : c.Live) :
    (h.setCache x c).Tidy := by
  constructor <;> intro y <;> by_cases hy : y = x
  · subst hy; simpa using placed
  · simpa [hy] using tidy.placed y
  · subst hy; simpa using live
  · simpa [hy] using tidy.live y

lemma setCache_sameConfig {c : Cache (cfg.geom x)} (config : Cache.SameConfig c (h.cache x))
    (y : Cntlr cfg.numL1) : Cache.SameConfig ((h.setCache x c).cache y) (h.cache y) := by
  by_cases hy : y = x
  · subst hy; simpa using config
  · simpa [hy] using Cache.SameConfig.refl (h.cache y)

lemma Tidy.moves_l1 (tidy : h.Tidy) {c : Cache (cfg.geom (.l1 i))} {lines : IntPtr → CState}
    (becomes : Cache.Becomes c (h.cache (.l1 i)) lines) :
    Moves h (h.setCache (.l1 i) c) (Function.update h.view (.l1 i) lines) where
  tidy := tidy.setCache becomes.placed becomes.live
  view := by rw [setCache_view, becomes.lines]
  config := setCache_sameConfig becomes.config
  seen := fun _ _ seen => by simpa using seen
  evicting := rfl
  failed := rfl
  dirty := ⟨[], by simp, fun t ht => Or.inl (by simpa [view] using ht)⟩

lemma Tidy.moves_sameBlocks (tidy : h.Tidy) {c : Cache (cfg.geom x)}
    (blocks : Cache.SameBlocks c (h.cache x)) (config : Cache.SameConfig c (h.cache x)) :
    Moves h (h.setCache x c) h.view where
  tidy := tidy.setCache (blocks.placed (tidy.placed x)) (blocks.live (tidy.live x))
  view := by
    rw [setCache_view, blocks.lineState]
    exact Function.update_eq_self x h.view
  config := setCache_sameConfig config
  seen := fun _ pending seen => by
    by_cases hx : x = .l2
    · subst hx; simpa using blocks.seen config seen
    · simpa [Ne.symm hx] using seen
  evicting := rfl
  failed := rfl
  dirty := by
    refine ⟨[], by simp, fun t ht => Or.inl ?_⟩
    by_cases hx : x = .l2
    · subst hx; simpa [view, blocks.lineState] using ht
    · simpa [view, Ne.symm hx] using ht

/-! ## Operations on one cache -/

lemma Tidy.find_isSome (tidy : h.Tidy) (held : h.view x (cfg.line addr) ≠ .invalid) :
    ∃ w, (h.cache x).find addr = some w := by
  rw [← tagOf_eq cfg x] at held
  exact Option.isSome_iff_exists.mp ((find_isSome_iff (tidy.placed x) (tidy.live x) addr).mpr held)

lemma find_eq_none (tidy : h.Tidy) (gone : h.view x (cfg.line addr) = .invalid) :
    (h.cache x).find addr = none := by
  rw [← tagOf_eq cfg x] at gone
  have absent := (find_isSome_iff (tidy.placed x) (tidy.live x) addr).not.mpr (not_not.mpr gone)
  simpa using absent

lemma view_of_find_eq_none (missing : (h.cache x).find addr = none) :
    h.view x (cfg.line addr) = .invalid := by
  rw [← getCacheState_eq]
  simp [getCacheState, Cache.getCacheState, missing]

lemma blockAt_cstate {w : Fin (cfg.geom x).assoc} (found : (h.cache x).find addr = some w) :
    (h.blockAt x addr w).cstate = h.view x (cfg.line addr) := by
  rw [← tagOf_eq cfg x]
  have : (h.cache x).getCacheState addr = (h.blockAt x addr w).cstate := by
    simp [Cache.getCacheState, found, blockAt]
  rw [← this]
  rfl

lemma retrieveCacheBlock_moves (tidy : h.Tidy) (held : h.view x (cfg.line addr) ≠ .invalid)
    (update : Bool) : Moves h (h.retrieveCacheBlock x addr update) h.view := by
  obtain ⟨w, found⟩ := tidy.find_isSome held
  have way := (h.cache x).accessSingleLine_way addr update
  rw [found] at way
  rw [retrieveCacheBlock, way]
  exact tidy.moves_sameBlocks ((h.cache x).accessSingleLine_sameBlocks addr update)
    ((h.cache x).accessSingleLine_sameConfig addr update)

lemma retrieveCacheBlock_false {w : Fin (cfg.geom x).assoc}
    (found : (h.cache x).find addr = some w) : h.retrieveCacheBlock x addr false = h := by
  simp [retrieveCacheBlock, accessSingleLine, found]

lemma writeCacheBlock_eq (tidy : h.Tidy)
    (ready : h.evicting = some addr ∨ h.view .l2 (cfg.line addr) = .modified) :
    h.writeCacheBlock addr = h := by
  by_cases buffer : h.evicting = some addr
  · exact if_pos buffer
  · have dirty := ready.resolve_left buffer
    have held : h.view .l2 (cfg.line addr) ≠ .invalid := by simp [dirty]
    obtain ⟨w, found⟩ := tidy.find_isSome held
    rw [writeCacheBlock, if_neg buffer]
    simp [found, blockAt_cstate found, dirty]

lemma invalidateCacheBlock_eq (clean : h.view x (cfg.line addr) ≠ .modified)
    (held : h.view x (cfg.line addr) ≠ .invalid) :
    h.invalidateCacheBlock x addr = h.setCache x ((h.cache x).invalidateSingleLine addr) := by
  simp [invalidateCacheBlock, getCacheState_eq, bne_iff_ne.mpr clean, bne_iff_ne.mpr held]

variable {st : CState}

lemma becomes_setCState (tidy : h.Tidy) {w : Fin (cfg.geom x).assoc}
    (found : (h.cache x).find addr = some w) (hst : st ≠ .invalid) :
    Cache.Becomes ((h.cache x).setCState ((cfg.geom x).setIndex ((cfg.geom x).tagOf addr)) w st)
      (h.cache x) fun u => if u = cfg.line addr then st else h.view x u := by
  have becomes := setCState_becomes (tidy.placed x) (tidy.live x) found hst
  simp only [tagOf_eq] at becomes ⊢
  exact becomes

lemma becomes_invalidate (tidy : h.Tidy) (x : Cntlr cfg.numL1) (addr : IntPtr) :
    Cache.Becomes ((h.cache x).invalidateSingleLine addr) (h.cache x) fun u =>
      if u = cfg.line addr then .invalid else h.view x u := by
  have becomes := invalidateSingleLine_becomes (tidy.placed x) (tidy.live x) addr
  simp only [tagOf_eq] at becomes
  exact becomes

/-! ## Snoops -/

section Snoop

variable {w : Fin (cfg.geom (.l1 i)).assoc}

lemma cleanBlock_spec (tidy : h.Tidy) (found : (h.cache (.l1 i)).find addr = some w)
    (ready : h.evicting = some addr ∨
      (h.view (.l1 i) (cfg.line addr) = .modified → h.view .l2 (cfg.line addr) = .modified)) :
    ∃ c, h.cleanBlock i addr w = h.setCache (.l1 i) c ∧ c.find addr = some w ∧
      c.lineState (cfg.line addr) ≠ .modified ∧
      ∃ lines, Cache.Becomes c (h.cache (.l1 i)) lines ∧
        ∀ u, u ≠ cfg.line addr → lines u = h.view (.l1 i) u := by
  by_cases dirty : h.view (.l1 i) (cfg.line addr) = .modified
  · have below : h.evicting = some addr ∨ h.view .l2 (cfg.line addr) = .modified :=
      ready.imp id fun r => r dirty
    have becomes := becomes_setCState tidy found (show CState.shared ≠ .invalid by simp)
    refine ⟨_, ?_, ?_, ?_, _, becomes, ?_⟩
    · simp only [cleanBlock, blockAt_cstate found, dirty, if_true, retrieveCacheBlock_false found,
        writeCacheBlock_eq tidy below, setCState]
    · rw [find_setCState, found]
    · simp [becomes.lines]
    · intro u hu
      simp [hu]
  · refine ⟨h.cache (.l1 i), ?_, found, dirty, _,
      .refl (tidy.placed (.l1 i)) (tidy.live (.l1 i)), fun u _ => rfl⟩
    simp only [cleanBlock, blockAt_cstate found, dirty, if_false, setCache_cache]

lemma Tidy.held (tidy : h.Tidy) {w : Fin (cfg.geom x).assoc}
    (found : (h.cache x).find addr = some w) : h.view x (cfg.line addr) ≠ .invalid := by
  have held := (find_isSome_iff (tidy.placed x) (tidy.live x) addr).mp (by rw [found]; rfl)
  rwa [tagOf_eq] at held

variable {new : CState}

lemma changeState_spec (tidy : h.Tidy) (found : (h.cache (.l1 i)).find addr = some w)
    (clean : h.view (.l1 i) (cfg.line addr) ≠ .modified) (hnew : new = .invalid ∨ new = .shared) :
    ∃ c, h.changeState i addr w new = h.setCache (.l1 i) c ∧
      ((c.setAt addr).blocks w).cstate = new ∧
      Cache.Becomes c (h.cache (.l1 i)) fun u =>
        if u = cfg.line addr then new else h.view (.l1 i) u := by
  rcases hnew with rfl | rfl
  · refine ⟨_, invalidateCacheBlock_eq clean (tidy.held found), ?_,
      becomes_invalidate tidy (.l1 i) addr⟩
    have here : ((h.cache (.l1 i)).setAt addr).find ((cfg.geom (.l1 i)).tagOf addr) = some w :=
      found
    simp [Cache.setAt, Cache.invalidateSingleLine, Cache.setSet, CacheSet.invalidate, here]
  · refine ⟨_, rfl, ?_, becomes_setCState tidy found (by simp)⟩
    simp [Cache.setCState]

lemma updateCacheBlock_spec (tidy : h.Tidy) (i : Fin cfg.numL1) (addr : IntPtr)
    (hnew : new = .invalid ∨ new = .shared) (ready : h.evicting = some addr ∨
      (h.view (.l1 i) (cfg.line addr) = .modified → h.view .l2 (cfg.line addr) = .modified)) :
    ∃ c, h.updateCacheBlock i addr new = h.setCache (.l1 i) c ∧
      Cache.Becomes c (h.cache (.l1 i)) fun u =>
        if u = cfg.line addr ∧ h.view (.l1 i) (cfg.line addr) ≠ .invalid then new
        else h.view (.l1 i) u := by
  cases found : (h.cache (.l1 i)).find addr with
  | none =>
    have gone := view_of_find_eq_none found
    refine ⟨h.cache (.l1 i), by simp [updateCacheBlock, found], ?_⟩
    simp only [gone, ne_eq, not_true_eq_false, and_false, if_false]
    exact .refl (tidy.placed (.l1 i)) (tidy.live (.l1 i))
  | some w =>
    obtain ⟨c, cleaned, found', clean, lines, becomes, others⟩ := cleanBlock_spec tidy found ready
    have moved := tidy.moves_l1 becomes
    obtain ⟨d, changed, block, becomes'⟩ := changeState_spec moved.tidy
      (by simpa using found' : ((h.setCache (.l1 i) c).cache (.l1 i)).find addr = some w)
      (by simpa [view] using clean) hnew
    have state : (h.setCache (.l1 i) d).getCacheState (.l1 i) addr = new := by
      rw [getCacheState_eq, setCache_view, becomes'.lines]
      simp
    have current : ((h.setCache (.l1 i) d).blockAt (.l1 i) addr w).cstate = new := by
      rw [blockAt, setCache_self]
      exact block
    refine ⟨d, ?_, becomes'.placed, becomes'.live,
      becomes'.config.trans (by simpa using becomes.config), ?_⟩
    · simp only [updateCacheBlock, found, cleaned, changed, setCache_setCache, state, current,
        beq_self_eq_true, Bool.or_true, check_true]
    · rw [becomes'.lines]
      funext u
      by_cases hu : u = cfg.line addr
      · simp [hu, tidy.held found]
      · rw [if_neg hu, if_neg fun h => hu h.1, setCache_view, Function.update_self, becomes.lines]
        exact others u hu

/-- `h'` is `h` after the L1s in `asked` have moved a line to the state `new`. -/
structure Snooped (h h' : Hier cfg) (asked : List (Fin cfg.numL1)) (t : IntPtr)
    (new : CState) : Prop where
  tidy : h'.Tidy
  l2 : h'.cache .l2 = h.cache .l2
  config : ∀ i, Cache.SameConfig (h'.cache (.l1 i)) (h.cache (.l1 i))
  l1 : ∀ i u, h'.view (.l1 i) u =
    if i ∈ asked ∧ u = t ∧ h.view (.l1 i) t ≠ .invalid then new else h.view (.l1 i) u
  evicting : h'.evicting = h.evicting
  dram : h'.dram = h.dram
  failed : h'.failed = h.failed

lemma updateAll_snooped (tidy : h.Tidy) (l1s : List (Fin cfg.numL1)) (addr : IntPtr)
    (hnew : new = .invalid ∨ new = .shared)
    (ready : h.evicting = some addr ∨ ∀ i, h.view (.l1 i) (cfg.line addr) = .modified →
      h.view .l2 (cfg.line addr) = .modified) :
    Snooped h (h.updateAll l1s addr new) l1s (cfg.line addr) new := by
  induction l1s generalizing h with
  | nil => exact ⟨tidy, rfl, fun _ => .refl _, by simp [updateAll], rfl, rfl, rfl⟩
  | cons i l1s ih =>
    obtain ⟨c, updated, becomes⟩ :=
      updateCacheBlock_spec tidy i addr hnew (ready.imp id fun r => r i)
    have moved := tidy.moves_l1 becomes
    have at_i : ∀ u, (h.setCache (.l1 i) c).view (.l1 i) u =
        if u = cfg.line addr ∧ h.view (.l1 i) (cfg.line addr) ≠ .invalid then new
        else h.view (.l1 i) u := by
      intro u
      rw [moved.view, Function.update_self]
    have at_j : ∀ j, j ≠ i → ∀ u, (h.setCache (.l1 i) c).view (.l1 j) u = h.view (.l1 j) u := by
      intro j hj u
      rw [moved.view, Function.update_of_ne (by simpa using hj)]
    have at_l2 : ∀ u, (h.setCache (.l1 i) c).view .l2 u = h.view .l2 u := by
      intro u
      rw [moved.view, Function.update_of_ne (by simp)]
    have rest := ih moved.tidy (ready.imp id fun r j hj => by
      rw [at_l2]
      by_cases hji : j = i
      · subst hji
        rw [at_i] at hj
        split at hj
        · rcases hnew with rfl | rfl <;> cases hj
        · exact r j hj
      · exact r j (at_j j hji _ ▸ hj))
    have unfolded : h.updateAll (i :: l1s) addr new =
        (h.setCache (.l1 i) c).updateAll l1s addr new := by
      rw [updateAll, foldl_cons, updated, updateAll]
    rw [unfolded]
    refine ⟨rest.tidy, by rw [rest.l2]; simp, ?_, ?_, rest.evicting, rest.dram, rest.failed⟩
    · intro j
      refine (rest.config j).trans ?_
      by_cases hji : j = i
      · subst hji
        simpa using becomes.config
      · rw [setCache_of_ne _ _ _ (by simpa using hji)]
        exact .refl _
    · intro j u
      rw [rest.l1]
      by_cases hji : j = i
      · subst hji
        -- the head of the list may come again in the tail
        rw [at_i, at_i]
        by_cases held : h.view (.l1 j) (cfg.line addr) = .invalid
        · simp [held]
        · by_cases hu : u = cfg.line addr
          · simp [hu, held]
          · simp [hu]
      · rw [at_j j hji, at_j j hji]
        simp [hji]

lemma mem_siblings {i j : Fin cfg.numL1} : j ∈ siblings i ↔ j ≠ i := by
  simp [siblings]

lemma Snooped.moves {t : IntPtr} (snooped : Snooped h h' (siblings i) t new) :
    Moves h h' (h.view.snoop i t new) where
  tidy := snooped.tidy
  view := by
    funext x u
    cases x with
    | l1 j => rw [snooped.l1, snoop]; simp only [mem_siblings]
    | l2 => rw [snoop, view, snooped.l2, view]
  config := fun x => by
    cases x with
    | l1 j => exact snooped.config j
    | l2 => rw [snooped.l2]; exact .refl _
  seen := fun _ pending seen => by rw [snooped.l2]; exact seen
  evicting := snooped.evicting
  failed := snooped.failed
  dirty := ⟨[], by simp [snooped.dram], fun u hu => Or.inl (by
    rw [view, snooped.l2]; exact hu)⟩

end Snoop

/-! ## Fills -/

variable {b : CacheBlockInfo}

lemma evictBlock_l1 (tidy : h.Tidy)
    (isLine : (cfg.geom (.l1 i)).IsLine b.tag) (gone : h.view (.l1 i) b.tag = .invalid)
    (below : b.cstate = .modified → h.view .l2 b.tag = .modified) : h.evictBlock (.l1 i) b = h := by
  have here := line_address isLine
  have written :
      (if b.cstate = .modified then h.writeCacheBlock (cfg.address b.tag) else h) = h := by
    split
    · rename_i dirty
      exact writeCacheBlock_eq tidy (.inr (by rw [here]; exact below dirty))
    · rfl
  simp only [evictBlock, tagToAddress_eq, written, getCacheState_eq, here, gone,
    beq_self_eq_true, check_true]

/-- `h'` is `h` after block `b`, already out of the L2, has been cleared from all
L1s, and written to DRAM if it was dirty. -/
structure Evicted (h h' : Hier cfg) (b : CacheBlockInfo) : Prop where
  tidy : h'.Tidy
  l2 : h'.cache .l2 = h.cache .l2
  config : ∀ x, Cache.SameConfig (h'.cache x) (h.cache x)
  view : h'.view = fun x u => if u = b.tag then .invalid else h.view x u
  evicting : h'.evicting = none
  failed : h'.failed = h.failed
  dram : h'.dram = h.dram ++ if b.cstate = .modified then [.write (cfg.address b.tag)] else []

lemma evictBlock_l2 (tidy : h.Tidy) (isLine : (cfg.geom .l2).IsLine b.tag)
    (gone : h.view .l2 b.tag = .invalid) : Evicted h (h.evictBlock .l2 b) b := by
  have here := line_address isLine
  have buffered : Tidy { h with evicting := some (cfg.address b.tag) } := ⟨tidy.placed, tidy.live⟩
  have snooped := updateAll_snooped buffered (finRange cfg.numL1) (cfg.address b.tag)
    (.inl rfl) (.inl rfl)
  rw [here] at snooped
  generalize hk : ({ h with evicting := some (cfg.address b.tag) } : Hier cfg).updateAll
    (finRange cfg.numL1) (cfg.address b.tag) .invalid = k at snooped
  have cleared : k.view .l2 b.tag = .invalid := by
    rw [view, snooped.l2]
    exact gone
  have result : h.evictBlock .l2 b = { k with
        evicting := none
        dram := k.dram ++ if b.cstate = .modified then [.write (cfg.address b.tag)] else [] } := by
    have unseen : ∀ dram, Hier.getCacheState { k with evicting := none, dram := dram } .l2
        (cfg.address b.tag) = .invalid := by
      intro dram
      rw [getCacheState_eq, here]
      exact cleared
    simp only [evictBlock, tagToAddress_eq, hk]
    split
    · simp only [accessDRAM, unseen, beq_self_eq_true, check_true]
    · have := unseen k.dram
      simp only [this, beq_self_eq_true, check_true, append_nil]
  rw [result]
  refine ⟨⟨snooped.tidy.placed, snooped.tidy.live⟩, snooped.l2, ?_, ?_, rfl, snooped.failed, ?_⟩
  · intro x
    cases x with
    | l1 j => exact snooped.config j
    | l2 => rw [snooped.l2]; exact .refl _
  · funext x u
    cases x with
    | l1 j =>
      refine (snooped.l1 j u).trans ?_
      by_cases hu : u = b.tag
      · by_cases held : h.view (.l1 j) b.tag = .invalid
        · simp only [hu, if_true]
          split
          · rfl
          · exact held
        · simp [hu]
      · simp [hu, view]
    | l2 =>
      by_cases hu : u = b.tag
      · rw [if_pos hu, hu]; exact cleared
      · rw [if_neg hu]
        exact congrArg (fun c => lineState c u) snooped.l2
  · rw [snooped.dram]

lemma setCacheState_setCache {c : Cache (cfg.geom x)} {w : Fin (cfg.geom x).assoc}
    (found : c.find addr = some w) (st : CState) :
    (h.setCache x c).setCacheState x addr st =
      h.setCache x (c.setCState ((cfg.geom x).setIndex ((cfg.geom x).tagOf addr)) w st) := by
  simp [setCacheState, found, setCState]

lemma insertCacheBlock_l1 (tidy : h.Tidy) (hst : st ≠ .invalid)
    (absent : h.view (.l1 i) (cfg.line addr) = .invalid) (below : h.view.DirtyBelow) :
    ∃ victim, victim ≠ some (cfg.line addr) ∧
      Moves h (h.insertCacheBlock (.l1 i) addr st) (Function.update h.view (.l1 i) fun u =>
        if some u = victim then .invalid else if u = cfg.line addr then st
        else h.view (.l1 i) u) := by
  obtain ⟨w, found, becomes, evicted, -⟩ := insertSingleLine_becomes
    (tidy.placed (.l1 i)) (tidy.live (.l1 i)) addr false hst (by rw [tagOf_eq]; exact absent)
  generalize hr : (h.cache (.l1 i)).insertSingleLine addr false = r at found becomes evicted
  have moved := tidy.moves_l1 becomes
  refine ⟨r.2.map (·.tag), ?_, ?_⟩
  · cases hv : r.2 with
    | none => simp
    | some b => simpa [tagOf_eq] using (evicted b hv).1
  have result : h.insertCacheBlock (.l1 i) addr st = h.setCache (.l1 i) (r.1.setCState
        ((cfg.geom (.l1 i)).setIndex ((cfg.geom (.l1 i)).tagOf addr)) w st) := by
    have notShared : (Cntlr.l1 i == Cntlr.l2) = false := by simp
    simp only [insertCacheBlock, notShared, getCacheState_eq, absent, Bool.false_eq_true, if_false,
      beq_self_eq_true, check_true, hr, setCacheState_setCache found]
    cases hv : r.2 with
    | none => rfl
    | some b =>
      obtain ⟨other, isLine, state, -⟩ := evicted b hv
      refine evictBlock_l1 moved.tidy isLine ?_ ?_
      · rw [moved.view]
        simp [hv]
      · intro dirty
        rw [moved.view, Function.update_of_ne (by simp)]
        exact below i b.tag (state.symm.trans dirty)
  rw [result]
  have lines : (fun u => if some u = r.2.map (·.tag) then .invalid
      else if u = (cfg.geom (.l1 i)).tagOf addr then st else (h.cache (.l1 i)).lineState u) =
      fun u => if some u = r.2.map (·.tag) then .invalid
        else if u = cfg.line addr then st else h.view (.l1 i) u := by
    simp only [tagOf_eq]
    rfl
  rw [← lines]
  exact moved

lemma getFlexCacheState_absent (tidy : h.Tidy) (absent : h.view .l2 (cfg.line addr) = .invalid) :
    (h.cache .l2).getFlexCacheState addr = .invalid := by
  rw [← tagOf_eq cfg .l2] at absent
  have nowhere := (tidy.live .l2).absent (Geometry.tagOf_ne_noTag _ addr) absent (tidy.placed .l2)
  simp [getFlexCacheState, findFlex_absent nowhere]

/-- A fill of the shared cache is the fill of the protocol, whose victim the replacement chose. -/
lemma insertCacheBlock_l2 (tidy : h.Tidy) (idle : h.evicting = none)
    (hst : st ≠ .invalid) (absent : h.view .l2 (cfg.line addr) = .invalid) :
    ∃ victim, victim ≠ some (cfg.line addr) ∧ (∀ u, victim = some u → h.view .l2 u ≠ .invalid) ∧
      Moves h (h.insertCacheBlock .l2 addr st) (h.view.fillL2 (cfg.line addr) st victim) := by
  obtain ⟨w, found, becomes, evicted, seen⟩ := insertSingleLine_becomes
    (tidy.placed .l2) (tidy.live .l2) addr true hst absent
  generalize hr : (h.cache .l2).insertSingleLine addr true = r at found becomes evicted seen
  generalize hc : r.1.setCState ((cfg.geom .l2).setIndex ((cfg.geom .l2).tagOf addr)) w st = c
    at becomes seen
  have result : h.insertCacheBlock .l2 addr st =
      r.2.elim (h.setCache .l2 c) ((h.setCache .l2 c).evictBlock .l2) := by
    cases hv : r.2 <;>
      simp only [Option.elim, insertCacheBlock, beq_self_eq_true,
        getFlexCacheState_absent tidy absent, if_true, check_true, hr, hv,
        setCacheState_setCache found, hc]
  have filled : (h.setCache .l2 c).Tidy := tidy.setCache becomes.placed becomes.live
  have config := setCache_sameConfig becomes.config
  have seen' : h.FirstOn → ∀ pending, (h.cache .l2).Seen pending →
      ((h.setCache .l2 c).cache .l2).Seen pending := by
    intro first pending before
    rw [setCache_self]
    exact seen rfl (first _) pending before
  rw [result]
  cases hv : r.2 with
  | none =>
    rw [Option.elim_none]
    have lines : (h.setCache .l2 c).view = h.view.fillL2 (cfg.line addr) st none := by
      rw [setCache_view, becomes.lines, hv]
      funext x u
      by_cases hx : x = .l2
      · subst hx
        simp [fillL2, tagOf_eq, view]
      · simp [fillL2, hx]
    refine ⟨none, by simp, by simp, filled, lines, config, seen', rfl, rfl, [], by simp, ?_⟩
    intro t dirty
    have hne : t ≠ cfg.line addr := by
      rintro rfl
      rw [absent] at dirty
      cases dirty
    exact .inl (by simpa [lines, fillL2, hne] using dirty)
  | some b =>
    rw [Option.elim_some]
    obtain ⟨other, isLine, state, held⟩ := evicted b hv
    rw [tagOf_eq] at other
    have gone : (h.setCache .l2 c).view .l2 b.tag = .invalid := by
      rw [setCache_view, becomes.lines, hv]
      simp
    have after := evictBlock_l2 filled isLine gone
    have lines : ((h.setCache .l2 c).evictBlock .l2 b).view =
        h.view.fillL2 (cfg.line addr) st (some b.tag) := by
      rw [after.view, setCache_view, becomes.lines, hv]
      funext x u
      by_cases hu : u = b.tag
      · simp [fillL2, hu]
      · by_cases hx : x = .l2
        · subst hx
          simp [fillL2, hu, tagOf_eq, view]
        · simp [fillL2, hu, hx]
    refine ⟨some b.tag, by simpa using other, ?_, after.tidy, lines,
      fun x => (after.config x).trans (config x), ?_, after.evicting.trans idle.symm,
      after.failed, _, after.dram, ?_⟩
    · rintro u hu
      cases hu
      rw [view, ← state]
      exact held
    · intro first pending before
      rw [after.l2]
      exact seen' first pending before
    · intro t dirty
      by_cases ht : t = b.tag
      · have dirty' : b.cstate = .modified := by rw [state, ← ht]; exact dirty
        exact .inr (by simp [dirty', ht])
      · have hne : t ≠ cfg.line addr := by
          rintro rfl
          rw [absent] at dirty
          cases dirty
        exact .inl (by simpa [lines, fillL2, hne, ht] using dirty)

end Hier

end Sniper
