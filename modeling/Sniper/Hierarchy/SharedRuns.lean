import Sniper.Hierarchy.SharedCache

/-!
# Runs of the shared cache

The operations that reach the L2, taken one by one and in any order: gated fills
of lines that are not there, changes of a state, invalidations, hits, flex
lookups and reconfigurations. The gated and the plain lookup agree throughout,
and a way that was switched back on stays on.
-/

namespace Sniper

open Runs

inductive L2Event where
  /-- `insertSingleLine` with `isShared` set, and the state the new block gets. -/
  | fill (addr : IntPtr) (st : CState)
  /-- `setCState` on the block of a line. -/
  | setState (addr : IntPtr) (st : CState)
  /-- `invalidateSingleLine`. -/
  | invalidate (addr : IntPtr)
  /-- `accessSingleLine`, which updates the replacement order if asked to. -/
  | hit (addr : IntPtr) (update : Bool)
  /-- `peekSingleLine` as a flex operation. -/
  | lookup (addr : IntPtr)
  | reconfigure

namespace Cache

variable {g : Geometry} {c d : Cache g}

def setLineState (c : Cache g) (addr : IntPtr) (st : CState) : Cache g :=
  match c.find addr with
  | some i => c.setCState (g.setIndex (g.tagOf addr)) i st
  | none => c

def apply (c : Cache g) : L2Event → Cache g
  | .fill addr st => (c.insertSingleLine addr true).1.setLineState addr st
  | .setState addr st => c.setLineState addr st
  | .invalidate addr => c.invalidateSingleLine addr
  | .hit addr update => (c.accessSingleLine addr update).1
  | .lookup addr => (c.peekSingleLine addr true true).1
  | .reconfigure => c

def Allows (c : Cache g) : L2Event → Prop
  | .fill addr _ => c.find addr = none
  | _ => True

instance (c : Cache g) : (e : L2Event) → Decidable (c.Allows e)
  | .fill addr _ => inferInstanceAs (Decidable (c.find addr = none))
  | .setState _ _ => .isTrue trivial
  | .invalidate _ => .isTrue trivial
  | .hit _ _ => .isTrue trivial
  | .lookup _ => .isTrue trivial
  | .reconfigure => .isTrue trivial

end Cache

namespace Hier

variable {cfg : HierConfig} {h : Hier cfg}

def l2Step (h : Hier cfg) : L2Event → Hier cfg
  | .reconfigure => h.reconfigure
  | e => h.setCache .l2 ((h.cache .l2).apply e)

def Allows (h : Hier cfg) (e : L2Event) : Prop := (h.cache .l2).Allows e

instance (h : Hier cfg) (e : L2Event) : Decidable (h.Allows e) :=
  inferInstanceAs (Decidable ((h.cache .l2).Allows e))

lemma l2Step_cache {e : L2Event} (he : e ≠ .reconfigure) :
    (h.l2Step e).cache .l2 = (h.cache .l2).apply e := by
  cases e with
  | reconfigure => exact absurd rfl he
  | _ => simp [l2Step, setCache]

end Hier

namespace Cache

variable {g : Geometry} {c : Cache g} {addr : IntPtr}

structure Orderly (c : Cache g) : Prop where
  placed : c.Placed
  first : ∀ m, c.isSubWayOn m 0 = true
  seen : c.Seen fun _ _ => False

lemma Orderly.sameBlocks {d : Cache g} (orderly : d.Orderly) (blocks : SameBlocks c d)
    (config : SameConfig c d) : c.Orderly where
  placed := blocks.placed orderly.placed
  first := fun m => by rw [config.ways]; exact orderly.first m
  seen := blocks.seen config orderly.seen

section

variable (orderly : c.Orderly)

include orderly

lemma Orderly.put {s : Nat} {i : Fin g.assoc} {b : CacheBlockInfo} (fits : (c.sets s).Fits g s i b)
    (place : b.isValid = true → (c.sets s).isLeader = true ∨ c.mask s i = true) :
    (c.put s i b).Orderly where
  placed := orderly.placed.put fits
  first := orderly.first
  seen := orderly.seen.put s i b fun valid => by
    rcases place valid with h | h
    · exact .inl h
    · exact .inr (.inl h)

lemma Orderly.setLineState (addr : IntPtr) (st : CState) : (c.setLineState addr st).Orderly := by
  unfold Cache.setLineState
  split
  · rename_i i found
    have valid : ((c.setAt addr).blocks i).isValid = true := by
      rw [CacheBlockInfo.isValid_iff, CacheSet.find_tag found]
      exact g.tagOf_ne_noTag addr
    refine orderly.put (orderly.placed.fits_state valid st) fun _ => ?_
    rcases orderly.seen _ i valid with h | h | h
    · exact .inl h
    · exact .inr h
    · exact h.elim
  · exact orderly

lemma Orderly.invalidate (addr : IntPtr) : (c.invalidateSingleLine addr).Orderly := by
  unfold invalidateSingleLine CacheSet.invalidate
  split
  · exact orderly.put (CacheSet.fits_empty _ _ _ _) (by simp)
  · exact orderly.sameBlocks (c.setSet_sameBlocks rfl) (c.setSet_sameConfig rfl)

lemma Orderly.fill {addr : IntPtr} (absent : c.find addr = none)
    (st : CState) : ((c.insertSingleLine addr true).1.setLineState addr st).Orderly := by
  obtain ⟨w, on, found, fits, blocks, config, -⟩ := insertSingleLine_setCState orderly.placed addr
    true st (CacheSet.find_eq_none.mp absent)
  have filled : (c.insertSingleLine addr true).1.setLineState addr st =
      (c.insertSingleLine addr true).1.setCState (g.setIndex (g.tagOf addr)) w st := by
    simp [Cache.setLineState, found]
  rw [filled]
  have put := orderly.put (b := ⟨g.tagOf addr, st⟩) fits fun _ => by
    cases leader : (c.setAt addr).isLeader with
    | true => exact .inl rfl
    | false => exact .inr (on rfl leader (orderly.first _))
  refine put.sameBlocks blocks (config.trans ⟨rfl, fun r => ?_⟩)
  exact ((c.put_sameConfig _ _ _).leaders r).symm

lemma Orderly.apply {e : L2Event} (allowed : c.Allows e) : (c.apply e).Orderly := by
  cases e with
  | fill addr st => exact orderly.fill allowed st
  | setState addr st => exact orderly.setLineState addr st
  | invalidate addr => exact orderly.invalidate addr
  | hit addr update =>
    exact orderly.sameBlocks (c.accessSingleLine_sameBlocks addr update)
      (c.accessSingleLine_sameConfig addr update)
  | lookup addr =>
    exact orderly.sameBlocks (c.peekSingleLine_sameBlocks addr true true)
      (c.peekSingleLine_sameConfig addr true true)
  | reconfigure => exact orderly

end

lemma new_orderly (g : Geometry) : (Cache.new g).Orderly :=
  ⟨new_placed g, fun _ => rfl, fun _ _ _ => Or.inr (.inl rfl)⟩

end Cache

namespace Hier

variable {cfg : HierConfig} {h : Hier cfg}

lemma orderly_step (orderly : (h.cache .l2).Orderly) {e : L2Event}
    (allowed : h.Allows e) : ((h.l2Step e).cache .l2).Orderly := by
  by_cases he : e = .reconfigure
  · subst he
    exact ⟨reconfigure_placed orderly.placed, reconfigure_firstOn orderly.placed orderly.first,
      reconfigure_seen orderly.placed orderly.first orderly.seen⟩
  · rw [l2Step_cache he]
    exact orderly.apply allowed

lemma run_orderly (cfg : HierConfig) {es : List L2Event}
    (allowed : Guarded l2Step Allows (Hier.new cfg) es) :
    ((run l2Step (Hier.new cfg) es).cache .l2).Orderly :=
  run_guarded (I := fun h : Hier cfg => (h.cache .l2).Orderly)
    (fun _ _ orderly ok => orderly_step orderly ok) (Cache.new_orderly _) allowed

/-! ## Runs in closed form

`reconfigure` visits every set of every module. Its effect on the L2 is known in
closed form, so a run can be followed on the sets of interest alone. -/

end Hier

namespace Cache

variable {g : Geometry} {c d : Cache g}

def reconfigured (c : Cache g) : Cache g :=
  { c with
    sets := fun s =>
      if s / 512 < g.numModules then
        (c.sets s).swept (switchWays (c.isSubWayOn (s / 512)) (c.l2Hits (s / 512)))
      else c.sets s
    isSubWayOn := fun m =>
      if m < g.numModules then (switchWays (c.isSubWayOn m) (c.l2Hits m)).on
      else c.isSubWayOn m }

def next (c : Cache g) : L2Event → Cache g
  | .reconfigure => c.reconfigured
  | e => c.apply e

structure SameButFills (c d : Cache g) : Prop where
  sets : c.sets = d.sets
  ways : c.isSubWayOn = d.isSubWayOn
  hits : c.l2Hits = d.l2Hits

section

variable (same : SameButFills c d)

include same

lemma SameButFills.find (addr : IntPtr) : c.find addr = d.find addr := by
  simp only [Cache.find, setAt, same.sets]

lemma SameButFills.findFlex (addr : IntPtr) : c.findFlex addr = d.findFlex addr := by
  simp only [Cache.findFlex, setAt, mask, same.sets, same.ways]

lemma SameButFills.allows (e : L2Event) : c.Allows e ↔ d.Allows e := by
  cases e with
  | fill addr st => simp only [Allows, same.find]
  | _ => exact Iff.rfl

lemma SameButFills.setSet (s : Nat) (set : CacheSet g.assoc) :
    SameButFills (c.setSet s set) (d.setSet s set) :=
  ⟨by simp only [Cache.setSet, same.sets], same.ways, same.hits⟩

lemma SameButFills.setLineState (addr : IntPtr) (st : CState) :
    SameButFills (c.setLineState addr st) (d.setLineState addr st) := by
  unfold Cache.setLineState
  rw [same.find]
  split
  · simp only [Cache.setCState, put, same.sets]
    exact same.setSet _ _
  · exact same

lemma SameButFills.apply (e : L2Event) : SameButFills (c.apply e) (d.apply e) := by
  cases e with
  | fill addr st =>
    refine SameButFills.setLineState ?_ addr st
    simp only [insertSingleLine, mask, same.sets, same.ways]
    split
    · exact ⟨by simp only [Cache.setSet, same.sets], same.ways, same.hits⟩
    · exact same.setSet _ _
  | setState addr st => exact same.setLineState addr st
  | invalidate addr =>
    simp only [Cache.apply, invalidateSingleLine, setAt, same.sets]
    exact same.setSet _ _
  | hit addr update =>
    simp only [Cache.apply, accessSingleLine, same.find, setAt, same.sets]
    split
    · exact same
    · split
      · exact same.setSet _ _
      · exact same
  | lookup addr =>
    simp only [Cache.apply, peekSingleLine, same.findFlex, Bool.and_self, if_true]
    split
    · exact ⟨same.sets, same.ways, by simp only [countHit, same.hits]⟩
    · exact same
  | reconfigure => exact same

lemma SameButFills.reconfigured : SameButFills c.reconfigured d.reconfigured := by
  constructor
  · simp only [Cache.reconfigured, same.sets, same.ways, same.hits]
  · simp only [Cache.reconfigured, same.ways, same.hits]
  · exact same.hits

end

end Cache

namespace Hier

variable {cfg : HierConfig} {h : Hier cfg}

lemma reconfigure_sameButFills (placed : (h.cache .l2).Placed) :
    Cache.SameButFills (h.reconfigure.cache .l2) (h.cache .l2).reconfigured := by
  have whole := reconfigure_l2 placed
  refine ⟨?_, ?_, whole.hits⟩
  · funext s
    rw [whole.sets]
    simp only [List.mem_range]
    rfl
  · funext m
    rw [whole.ways]
    simp only [List.mem_range]
    rfl

lemma run_next {c : Cache (cfg.geom .l2)} (orderly : (h.cache .l2).Orderly)
    (same : Cache.SameButFills (h.cache .l2) c) {es : List L2Event}
    (allowed : Guarded Cache.next Cache.Allows c es) :
    Guarded l2Step Allows h es ∧
      Cache.SameButFills ((run l2Step h es).cache .l2) (run Cache.next c es) := by
  induction es generalizing h c with
  | nil => exact ⟨trivial, same⟩
  | cons e es ih =>
    have ok : h.Allows e := (same.allows e).mpr allowed.1
    have step : Cache.SameButFills ((h.l2Step e).cache .l2) (c.next e) := by
      by_cases he : e = .reconfigure
      · subst he
        have closed := reconfigure_sameButFills orderly.placed
        have moved := same.reconfigured
        exact ⟨closed.sets.trans moved.sets, closed.ways.trans moved.ways,
          closed.hits.trans moved.hits⟩
      · have plain : c.next e = c.apply e := by cases e <;> first | rfl | exact absurd rfl he
        rw [l2Step_cache he, plain]
        exact same.apply e
    obtain ⟨rest, final⟩ := ih (orderly_step orderly ok) step allowed.2
    exact ⟨⟨ok, rest⟩, final⟩

lemma run_next_new (cfg : HierConfig) (es : List L2Event)
    (allowed : Guarded Cache.next Cache.Allows (Cache.new (cfg.geom .l2)) es) :
    Guarded l2Step Allows (Hier.new cfg) es ∧
      Cache.SameButFills ((run l2Step (Hier.new cfg) es).cache .l2)
        (run Cache.next (Cache.new (cfg.geom .l2)) es) :=
  run_next (Cache.new_orderly _) ⟨rfl, rfl, rfl⟩ allowed

/-! ## The two lookups -/

/-- In every set but the leader sets valid blocks are in ways that are on and no
tag occurs twice, so the two lookups return the same block for every address. -/
theorem run_lookups_agree (cfg : HierConfig) (es : List L2Event)
    (allowed : Guarded l2Step Allows (Hier.new cfg) es) :
    let c := (run l2Step (Hier.new cfg) es).cache .l2
    (∀ s, (c.sets s).isLeader = false →
      (∀ i, ((c.sets s).blocks i).isValid = true → c.mask s i = true) ∧
      ∀ i j, ((c.sets s).blocks i).isValid = true →
        ((c.sets s).blocks i).tag = ((c.sets s).blocks j).tag → i = j) ∧
    ∀ addr, c.find addr = c.findFlex addr := by
  intro c
  have orderly : c.Orderly := run_orderly cfg allowed
  refine ⟨fun s follower => ⟨fun i valid => ?_, (orderly.placed s).unique⟩,
    fun addr => (orderly.seen.findFlex_eq addr).symm⟩
  rcases orderly.seen s i valid with h | h | h
  · rw [follower] at h; cases h
  · exact h
  · exact h.elim

/-- A fill, a hit and an invalidation before a reconfiguration. -/
theorem run_lookups_agree_filled :
    let c := (run l2Step (Hier.new twoCores) [.fill 0x40 .shared, .hit 0x40 true,
      .fill 0x80 .modified, .invalidate 0x40, .reconfigure]).cache .l2
    (∀ s, (c.sets s).isLeader = false →
      (∀ i, ((c.sets s).blocks i).isValid = true → c.mask s i = true) ∧
      ∀ i j, ((c.sets s).blocks i).isValid = true →
        ((c.sets s).blocks i).tag = ((c.sets s).blocks j).tag → i = j) ∧
    ∀ addr, c.find addr = c.findFlex addr :=
  run_lookups_agree twoCores _
    ⟨by decide +kernel, trivial, by decide +kernel, trivial, trivial, trivial⟩

/-! ## Hits and switching -/

end Hier

structure FlexHit (A : Nat) where
  module : Nat
  isLeader : Bool
  way : Fin A

def FlexHit.isAt {A : Nat} (m : Nat) (w : Fin A) (f : FlexHit A) : Bool :=
  f.module == m && f.way == w

namespace Cache

variable {g : Geometry}

def flexHit (c : Cache g) : L2Event → Option (FlexHit g.assoc)
  | .lookup addr =>
    (c.findFlex addr).map fun i =>
      ⟨g.moduleOf (g.setIndex (g.tagOf addr)), (c.setAt addr).isLeader, i⟩
  | _ => none

lemma setLineState_rows (c : Cache g) (addr : IntPtr) (st : CState) :
    (c.setLineState addr st).isSubWayOn = c.isSubWayOn ∧
      (c.setLineState addr st).l2Hits = c.l2Hits := by
  unfold setLineState
  split <;> exact ⟨rfl, rfl⟩

lemma countHit_l2Hits (c : Cache g) (set : Nat) (i : Fin g.assoc) (m : Nat) (w : Fin g.assoc) :
    (c.countHit set i).l2Hits m w =
      c.l2Hits m w + if g.moduleOf set == m && i == w then 1 else 0 := by
  by_cases row : g.moduleOf set = m
  · subst row
    by_cases way : i = w
    · simp [countHit, way]
    · simp [countHit, way, Function.update_of_ne (Ne.symm way)]
  · simp [countHit, row, Function.update_of_ne (Ne.symm row)]

lemma apply_l2Hits (c : Cache g) (e : L2Event) (m : Nat) (w : Fin g.assoc) :
    (c.apply e).l2Hits m w = c.l2Hits m w + (c.flexHit e).toList.countP (FlexHit.isAt m w) := by
  cases e with
  | lookup addr =>
    simp only [apply, peekSingleLine, flexHit, Bool.and_self, if_true]
    cases c.findFlex addr with
    | none => rfl
    | some i =>
      rw [Option.map_some, Option.toList_some, List.countP_singleton]
      exact countHit_l2Hits c _ i m w
  | fill addr st =>
    rw [apply, (setLineState_rows _ addr st).2, (c.insertSingleLine_rows addr true).2]
    rfl
  | setState addr st =>
    rw [apply, (c.setLineState_rows addr st).2]
    rfl
  | hit addr update =>
    simp only [apply, accessSingleLine, flexHit]
    split
    · rfl
    · split <;> rfl
  | invalidate addr => rfl
  | reconfigure => rfl

lemma apply_isSubWayOn (c : Cache g) (e : L2Event) : (c.apply e).isSubWayOn = c.isSubWayOn := by
  cases e with
  | fill addr st =>
    exact (setLineState_rows _ addr st).1.trans (c.insertSingleLine_rows addr true).1
  | setState addr st => exact (c.setLineState_rows addr st).1
  | hit addr update => exact (c.accessSingleLine_sameConfig addr update).ways
  | lookup addr => exact c.peekSingleLine_isSubWayOn addr true true
  | invalidate addr => rfl
  | reconfigure => rfl

end Cache

namespace Hier

variable {cfg : HierConfig} {h : Hier cfg}

lemma apply_rows {g : Geometry} (c : Cache g) (e : L2Event) :
    (c.apply e).isSubWayOn = c.isSubWayOn ∧ ∀ m v, c.l2Hits m v ≤ (c.apply e).l2Hits m v := by
  refine ⟨c.apply_isSubWayOn e, fun m v => ?_⟩
  rw [c.apply_l2Hits e]
  exact Nat.le_add_right _ _

def HeldOn (m : Nat) (v : Fin (cfg.geom .l2).assoc) (h : Hier cfg) : Prop :=
  (h.cache .l2).isSubWayOn m v = true ∧
    ∃ w, v ≤ w ∧ (h.cache .l2).isSubWayOn m w = true ∧ betaHits < (h.cache .l2).l2Hits m w

variable {m : Nat} {v : Fin (cfg.geom .l2).assoc}

lemma HeldOn.switched (held : HeldOn m v h) : (h.switched m).on v = true := by
  obtain ⟨on, w, hvw, wOn, used⟩ := held
  refine (switchWays_on v).mpr (.inl ⟨on, fun falls => ?_⟩)
  have := falls.2.2.2 w hvw wOn
  simp only [alphaHits, betaHits] at this used
  omega

lemma HeldOn.step (held : HeldOn m v h) (e : L2Event) : HeldOn m v (h.l2Step e) := by
  by_cases he : e = .reconfigure
  · subst he
    obtain ⟨ways, hits⟩ := h.reconfigure_rows
    have kept : ∀ u, HeldOn m u h → (h.reconfigure.cache .l2).isSubWayOn m u = true := by
      intro u hu
      rw [ways]
      split
      · exact hu.switched
      · exact hu.1
    obtain ⟨on, w, hvw, wOn, used⟩ := held
    refine ⟨kept v ⟨on, w, hvw, wOn, used⟩, w, hvw, kept w ⟨wOn, w, le_rfl, wOn, used⟩, ?_⟩
    rw [l2Step, hits]
    exact used
  · obtain ⟨on, w, hvw, wOn, used⟩ := held
    obtain ⟨ways, hits⟩ := apply_rows (h.cache .l2) e
    rw [HeldOn, l2Step_cache he, ways]
    exact ⟨on, w, hvw, wOn, used.trans_le (hits m w)⟩

lemma heldOn_of_rise {e : L2Event} (off : (h.cache .l2).isSubWayOn m v = false)
    (on : ((h.l2Step e).cache .l2).isSubWayOn m v = true) : HeldOn m v (h.l2Step e) := by
  by_cases he : e = .reconfigure
  · subst he
    obtain ⟨ways, hits⟩ := h.reconfigure_rows
    have row := ways m
    by_cases hm : m < cfg.l2.numModules
    · rw [if_pos hm] at row
      have rises : Rises ((h.cache .l2).isSubWayOn m) ((h.cache .l2).l2Hits m) v := by
        have on' : (h.switched m).on v = true := row ▸ on
        refine ((switchWays_on v).mp on').resolve_left fun h => ?_
        rw [off] at h
        cases h.1
      obtain ⟨-, w, hvw, hot⟩ := rises
      refine ⟨on, w, hvw, ?_, ?_⟩
      · rw [l2Step, row]
        exact (switchWays_on w).mpr (.inr ⟨hot.1, w, le_rfl, hot⟩)
      · rw [l2Step, hits]
        exact hot.2.2
    · rw [l2Step, row, if_neg hm, off] at on
      cases on
  · rw [l2Step_cache he, (apply_rows _ e).1, off] at on
    cases on

/-- In every run from a state with all ways on, a way that is switched back on is
never switched off again, and no way changes more than twice. -/
theorem switched_on_for_good (cfg : HierConfig) (h : Hier cfg)
    (allOn : ∀ m v, (h.cache .l2).isSubWayOn m v = true) (m : Nat) (v : Fin (cfg.geom .l2).assoc) :
    (∀ before after : List L2Event, ((run l2Step h before).cache .l2).isSubWayOn m v = false →
      ((run l2Step h (before ++ [.reconfigure])).cache .l2).isSubWayOn m v = true →
      ((run l2Step h (before ++ [.reconfigure] ++ after)).cache .l2).isSubWayOn m v = true) ∧
    ∀ es, changes l2Step (fun k : Hier cfg => (k.cache .l2).isSubWayOn m v) h es ≤ 2 := by
  constructor
  · intro before after off on
    rw [run_append, run_cons, run_nil] at on
    have held := heldOn_of_rise off on
    rw [run_append, run_append, run_cons, run_nil]
    exact (run_invariant (I := HeldOn m v) (fun k e hk => hk.step e) held after).1
  · intro es
    have bound := changes_le_two (J := HeldOn m v)
      (f := fun k : Hier cfg => (k.cache .l2).isSubWayOn m v) (fun k e hk => hk.step e)
      (fun k hk => hk.1) (fun k e => heldOn_of_rise) h es
    simpa [allOn m v] using bound

/-- Three lines in leader set 63; after the first reconfiguration has switched
way 2 off, the one in way 2 of the leader set is looked up 56 times. -/
def wakeUp : List L2Event :=
  [.fill 0xfc0 .shared, .fill 0x40fc0 .shared, .fill 0x80fc0 .shared, .reconfigure] ++
    List.replicate 56 (.lookup 0x80fc0)

/-- Way 2 of module 0 is brought back by the hits in the leader set. -/
theorem wakeUp_switched_on_for_good :
    ((run l2Step (Hier.new twoCores) wakeUp).cache .l2).isSubWayOn 0 2 = false ∧
    ((run l2Step (Hier.new twoCores) (wakeUp ++ [.reconfigure])).cache .l2).isSubWayOn 0 2 =
      true ∧
    ((run l2Step (Hier.new twoCores)
      (wakeUp ++ [.reconfigure] ++ [.reconfigure])).cache .l2).isSubWayOn 0 2 = true := by
  have off : ((run l2Step (Hier.new twoCores) wakeUp).cache .l2).isSubWayOn 0 2 = false := by
    have closed := (run_next_new twoCores wakeUp (by decide +kernel)).2
    rw [closed.ways]
    decide +kernel
  have on : ((run l2Step (Hier.new twoCores)
      (wakeUp ++ [.reconfigure])).cache .l2).isSubWayOn 0 2 = true := by
    have closed := (run_next_new twoCores (wakeUp ++ [.reconfigure]) (by decide +kernel)).2
    rw [closed.ways]
    decide +kernel
  exact ⟨off, on, (switched_on_for_good twoCores (Hier.new twoCores) (fun _ _ => rfl) 0 2).1
    wakeUp [.reconfigure] off on⟩

end Hier

end Sniper
