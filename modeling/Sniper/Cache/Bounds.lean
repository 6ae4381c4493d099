import Sniper.Cache.Cache
import Sniper.Lib.Fallible

/-!
# Accesses of the shared cache

`peekSingleLine` and `insertSingleLine` of a shared cache, with every access to the rows of the
modules and to the arrays of a set checked against the size of the array. The constructor gives
modules to three numbers of sets only and lets all others pass, and `insertFlex` logs the first
eight blocks of a set whatever the associativity is.
-/

namespace Sniper

open List

/-- The arrays of a set, `m_cache_block_info_array` and `m_lru_bits`. -/
structure SetArrays (A : Nat) where
  blocks : Fin A → CacheBlockInfo
  lruBits : Fin A → Nat

def CacheSet.arrays {A : Nat} (s : CacheSet A) : SetArrays A := ⟨s.blocks, s.lruBits⟩

namespace SetArrays

variable {A : Nat} (s : SetArrays A)

/-- `CacheSet::findFlex`. -/
def findFlex (tag : IntPtr) (isSubWay : Fin A → Bool) (ifLeader : Bool) : Option (Option Nat) :=
  Checked.scan (fun index => do
      let block ← Checked.read s.blocks index
      if block.isValid then
        let on ← Checked.read isSubWay index
        return if (ifLeader || on) && block.tag == tag then .take else .next
      else return .next)
    (range A).reverse

variable (part : Nat → Option Bool)

/-- One turn of the loops of `moveToMRU` and `moveToMRUFlex`; `part` says which ways take part. -/
def ageWay (accessed : Nat) (lruBits : Fin A → Nat) (i : Nat) : Option (Fin A → Nat) := do
  if ← part i then
    let bits ← Checked.read lruBits i
    if bits < (← Checked.read lruBits accessed) then Checked.write lruBits i (bits + 1)
    else return lruBits
  else return lruBits

def moveWay (s : SetArrays A) (accessed : Nat) : Option (SetArrays A) := do
  let lruBits ← (range A).foldlM (ageWay part accessed) s.lruBits
  let lruBits ← Checked.write lruBits accessed 0
  return { s with lruBits }

/-- `CacheSetLRU::moveToMRU`. -/
def moveToMRU (accessed : Nat) : Option (SetArrays A) :=
  s.moveWay (fun _ => some true) accessed

/-- `CacheSetLRU::moveToMRUFlex`. -/
def moveToMRUFlex (accessed : Nat) (isSubWay : Fin A → Bool) : Option (SetArrays A) :=
  s.moveWay (Checked.read isSubWay) accessed

def isValidReplacement (index : Nat) : Option Bool := do
  let block ← Checked.read s.blocks index
  return block.cstate != .sharedUpgrading

def olderWay (s : SetArrays A) (best : Nat × Nat) (i : Nat) : Option (Nat × Nat) := do
  if ← part i then
    let bits ← Checked.read s.lruBits i
    if best.2 < bits then
      return if ← s.isValidReplacement i then (i, bits) else best
    else return best
  else return best

def oldestWay (s : SetArrays A) : Option Nat := do
  let best ← (range A).foldlM (s.olderWay part) (0, 0)
  return best.1

/-- The ends of `getReplacementIndex` and `getReplacementIndexFlex`: the invalid block that has
been found, or else the oldest one, is moved to the front. -/
def chooseWay (move : Nat → Option (SetArrays A)) (s : SetArrays A) :
    Option Nat → Option (Nat × SetArrays A)
  | some i => do return (i, ← move i)
  | none => do
    let index ← s.oldestWay part
    return (index, ← move index)

/-- `CacheSetLRU::getReplacementIndex`. -/
def getReplacementIndex : Option (Nat × SetArrays A) := do
  let invalid ← Checked.scan (fun i => do
      let block ← Checked.read s.blocks i
      return if block.isValid then .next else .take)
    (range A)
  s.chooseWay (fun _ => some true) s.moveToMRU invalid

/-- `CacheSetLRU::getReplacementIndexFlex`. -/
def getReplacementIndexFlex (isSubWay : Fin A → Bool) : Option (Nat × SetArrays A) := do
  let invalid ← Checked.scan (fun i => do
      if ← Checked.read isSubWay i then
        let block ← Checked.read s.blocks i
        return if block.isValid then .next else .take
      else return .leave)
    (range A)
  s.chooseWay (Checked.read isSubWay) (s.moveToMRUFlex · isSubWay) invalid

/-- `CacheSet::insert`. -/
def insert (b : CacheBlockInfo) : Option (SetArrays A × Option CacheBlockInfo) := do
  let chosen ← s.getReplacementIndex
  let old ← Checked.read chosen.2.blocks chosen.1
  let blocks ← Checked.write chosen.2.blocks chosen.1 b
  return ({ chosen.2 with blocks }, if old.isValid then some old else none)

/-- `CacheSet::insertFlex`. The first eight blocks are logged before the replacement, and once more
after it if a block has been evicted. -/
def insertFlex (b : CacheBlockInfo) (isSubWay : Fin A → Bool) :
    Option (SetArrays A × Option CacheBlockInfo) := do
  let chosen ← s.getReplacementIndexFlex isSubWay
  let old ← Checked.read chosen.2.blocks chosen.1
  Checked.readAll chosen.2.blocks (range 8)
  let blocks ← Checked.write chosen.2.blocks chosen.1 b
  if old.isValid then
    Checked.readAll blocks (range 8)
    return ({ chosen.2 with blocks }, some old)
  else return ({ chosen.2 with blocks }, none)

end SetArrays

/-! ## Inside the arrays

The loops over the ways of a set stay inside its arrays and do what the set of the model does. -/

namespace CacheSet

variable {A : Nat}

open SetArrays Recency Checked

lemma findFlex_arrays (s : CacheSet A) (tag : IntPtr) (isSubWay : Fin A → Bool) (ifLeader : Bool) :
    s.arrays.findFlex tag isSubWay ifLeader =
      some ((s.findFlex tag isSubWay ifLeader).map Fin.val) := by
  rw [SetArrays.findFlex, range_eq_map, ← map_reverse]
  refine scan_find _ (fun i => ?_) _
  simp only [arrays, read_val]
  by_cases valid : (s.blocks i).isValid = true
  · simp [valid]
  · simp [valid]

variable {part : Nat → Option Bool} {on : Fin A → Bool}

lemma moveWay_arrays (inside : ∀ i : Fin A, part i.val = some (on i)) (s : CacheSet A)
    (w : Fin A) : s.arrays.moveWay part w.val = some (s.moveToMRUFlex w on).arrays := by
  have turn : ∀ (bits : Fin A → Nat) (i : Fin A),
      ageWay part w.val bits i.val = some (ageStep on w bits i) := by
    intro bits i
    by_cases takesPart : on i = true
    · by_cases older : bits i < bits w
      · simp [ageWay, ageStep, inside, takesPart, older]
      · simp [ageWay, ageStep, inside, takesPart, older]
    · simp [ageWay, ageStep, inside, takesPart]
  have loop := foldlM_val (ageStep on w) id turn (finRange A) s.lruBits
  have touched : Function.update ((finRange A).foldl (ageStep on w) s.lruBits) w 0 =
      touch s.lruBits on w :=
    update_foldl_ageStep (nodup_finRange A) mem_finRange
  rw [← range_eq_map] at loop
  simp only [id_eq] at loop
  simp [moveWay, arrays, loop, touched, moveToMRUFlex]

variable [NeZero A]

lemma oldestWay_arrays (inside : ∀ i : Fin A, part i.val = some (on i)) (s : CacheSet A) :
    s.arrays.oldestWay part =
      some (eldest s.lruBits (fun i => on i && s.isValidReplacement i) 0).val := by
  have turn : ∀ (best : Fin A × Nat) (i : Fin A),
      s.arrays.olderWay part (best.1.val, best.2) i.val =
        some (let r := better s.lruBits (fun i => on i && s.isValidReplacement i) best i
          (r.1.val, r.2)) := by
    intro best i
    by_cases takesPart : on i = true
    · by_cases older : best.2 < s.lruBits i
      · by_cases free : (s.blocks i).cstate = .sharedUpgrading
        · simp [olderWay, SetArrays.isValidReplacement, better,
            isValidReplacement, arrays, inside, takesPart, older, free]
        · simp [olderWay, SetArrays.isValidReplacement, better,
            isValidReplacement, arrays, inside, takesPart, older, free]
      · simp [olderWay, better, arrays, inside, takesPart, older]
    · simp [olderWay, better, inside, takesPart]
  have loop := foldlM_val _ (fun best : Fin A × Nat => (best.1.val, best.2)) turn
    (finRange A) (0, 0)
  rw [← range_eq_map] at loop
  have start : ((0 : Fin A).val, 0) = (0, 0) := by simp
  rw [oldestWay]
  simp only [start] at loop
  rw [loop]
  rfl

lemma chooseWay_arrays (inside : ∀ i : Fin A, part i.val = some (on i)) (s : CacheSet A)
    (invalid : Option (Fin A)) {w : Fin A} (chosen : w =
      invalid.getD (eldest s.lruBits (fun i => on i && s.isValidReplacement i) 0)) :
    s.arrays.chooseWay part (s.arrays.moveWay part) (invalid.map Fin.val) =
      some (w.val, (s.moveToMRUFlex w on).arrays) := by
  subst chosen
  cases invalid with
  | some i => simp [chooseWay, moveWay_arrays inside]
  | none => simp [chooseWay, oldestWay_arrays inside, moveWay_arrays inside]

lemma getReplacementIndex_arrays (s : CacheSet A) : s.arrays.getReplacementIndex =
      some (s.getReplacementIndex.1.val, s.getReplacementIndex.2.arrays) := by
  have chosen : s.replacementWay = (Scan.up fun i => !(s.blocks i).isValid).getD
        (eldest s.lruBits (fun i => true && s.isValidReplacement i) 0) := by
    unfold replacementWay
    cases Scan.up fun i => !(s.blocks i).isValid <;> rfl
  rw [SetArrays.getReplacementIndex, range_eq_map,
    scan_find (fun i => !(s.blocks i).isValid) (fun i => ?_)]
  · exact chooseWay_arrays (fun _ => rfl) s _ chosen
  · by_cases valid : (s.blocks i).isValid = true <;> simp [arrays, valid]

lemma getReplacementIndexFlex_arrays (s : CacheSet A) (isSubWay : Fin A → Bool) :
    s.arrays.getReplacementIndexFlex isSubWay = some ((s.getReplacementIndexFlex isSubWay).1.val,
        (s.getReplacementIndexFlex isSubWay).2.arrays) := by
  have chosen : s.replacementWayFlex isSubWay =
      (((finRange A).takeWhile isSubWay).find? fun i => !(s.blocks i).isValid).getD
        (eldest s.lruBits (fun i => isSubWay i && s.isValidReplacement i) 0) := by
    unfold replacementWayFlex
    cases ((finRange A).takeWhile isSubWay).find? fun i => !(s.blocks i).isValid <;> rfl
  rw [SetArrays.getReplacementIndexFlex, range_eq_map,
    scan_val (fun i => !isSubWay i) (fun i => !(s.blocks i).isValid) (fun i => ?_)]
  · simp only [Bool.not_not]
    exact chooseWay_arrays (read_val isSubWay) s _ chosen
  · by_cases on : isSubWay i = true
    · by_cases valid : (s.blocks i).isValid = true <;> simp [arrays, on, valid]
    · simp [on]

lemma insert_arrays (s : CacheSet A) (b : CacheBlockInfo) :
    s.arrays.insert b = some ((s.insert b).set.arrays, (s.insert b).evicted) := by
  simp only [SetArrays.insert, getReplacementIndex_arrays]
  simp [arrays, CacheSet.insert, place, setBlock]

lemma insertFlex_arrays (s : CacheSet A) (b : CacheBlockInfo) (isSubWay : Fin A → Bool) :
    s.arrays.insertFlex b isSubWay =
      if 8 ≤ A then some ((s.insertFlex b isSubWay).set.arrays, (s.insertFlex b isSubWay).evicted)
      else none := by
  simp only [SetArrays.insertFlex, getReplacementIndexFlex_arrays, readAll_range]
  by_cases wide : 8 ≤ A
  · simp only [wide, if_true, arrays, CacheSet.insertFlex, place, setBlock]
    by_cases valid : ((s.getReplacementIndexFlex isSubWay).2.blocks
        (s.getReplacementIndexFlex isSubWay).1).isValid = true
    · simp [valid]
    · simp [valid]
  · simp [wide, arrays]

end CacheSet

/-! ## The shared cache -/

namespace Geometry

variable (g : Geometry)

/-- `p_num_modules`, which stays at -1 for the set counts without modules. -/
def pNumModules : ℤ := if g.numModules = 0 then -1 else g.numModules

/-- The number that `getModuleIndex` returns. -/
def moduleIndex (set : Nat) : ℤ :=
  match g.getModuleIndex set with
  | some m => m
  | none => -1

/-- Row `m` of `isSubWayOn` or `L2Hits`. -/
def row {α : Type*} (rows : Nat → α) (m : ℤ) : Option α :=
  if 0 ≤ m ∧ m < g.pNumModules then some (rows m.toNat) else none

variable {g}

lemma HasModules.row_eq {α : Type*} (hm : g.HasModules) (rows : Nat → α) {set : Nat}
    (hs : set < g.numSets) : g.row rows (g.moduleIndex set) = some (rows (g.moduleOf set)) := by
  have index : g.moduleIndex set = (set / 512 : Nat) := by rw [moduleIndex, hm.getModuleIndex_eq hs]
  have count := hm.numSets_eq
  have some : g.numModules ≠ 0 := by rintro none; rw [none] at count; omega
  rw [row, index, if_pos ⟨by omega, by rw [pNumModules, if_neg some]; omega⟩, hm.moduleOf_eq hs,
    Int.toNat_natCast]

lemma row_eq_none {α : Type*} (without : ¬ g.HasModules) (rows : Nat → α) (m : ℤ) :
    g.row rows m = none := by
  have zero : g.numModules = 0 := by
    obtain ⟨h4, h8, h16⟩ : g.numSets ≠ 4096 ∧ g.numSets ≠ 8192 ∧ g.numSets ≠ 16384 := by
      simpa [HasModules] using without
    simp [numModules, h4, h8, h16]
  refine if_neg fun inside => ?_
  rw [pNumModules, if_pos zero] at inside
  omega

lemma moduleIndex_toNat (set : Nat) : (g.moduleIndex set).toNat = g.moduleOf set := by
  unfold moduleIndex moduleOf
  cases g.getModuleIndex set <;> rfl

lemma aIndex_pos (i : Nat) : 0 < g.aIndex i := by
  induction i with
  | zero => exact Nat.one_pos
  | succ i ih =>
    simp only [aIndex]
    split <;> omega

lemma createsLeader_eq_false {i : Nat} (place : i % 64 ≠ 63) : g.createsLeader i = false := by
  have pos := g.aIndex_pos i
  simp only [createsLeader, decide_eq_false_iff_not]
  omega

lemma HasModules.follower (hm : g.HasModules) : g.createsLeader (g.setIndex 0#64) = false := by
  refine createsLeader_eq_false ?_
  unfold setIndex
  cases g.hash with
  | mask => simp
  | mod => simp
  | rng1Mod => rcases hm with h | h | h <;> (rw [h]; decide)
  | rng2Mod => rcases hm with h | h | h <;> (rw [h]; decide)

end Geometry

namespace Cache

variable {g : Geometry}

/-- `Cache::peekSingleLine` with `isShared` set. -/
def checkedPeek (c : Cache g) (addr : IntPtr) (isFlexOp : Bool) :
    Option (Cache g × Option Nat) := do
  let set := g.setIndex (g.tagOf addr)
  let m := g.moduleIndex set
  let isSubWay ← g.row c.isSubWayOn m
  let found ← (c.sets set).arrays.findFlex (g.tagOf addr) isSubWay (c.sets set).isLeader
  match isFlexOp, found with
  | true, some i =>
    let hits ← g.row c.l2Hits m
    let hits ← Checked.write hits i ((← Checked.read hits i) + 1)
    return ({ c with l2Hits := Function.update c.l2Hits m.toNat hits }, some i)
  | _, found => return (c, found)

/-- `Cache::insertSingleLine` with `isShared` set: the arrays of the set after it, and the block
that it evicts. -/
def checkedInsert (c : Cache g) (addr : IntPtr) :
    Option (SetArrays g.assoc × Option CacheBlockInfo) := do
  let set := g.setIndex (g.tagOf addr)
  let m := g.moduleIndex set
  let block : CacheBlockInfo := ⟨g.tagOf addr, .invalid⟩
  if (c.sets set).isLeader then (c.sets set).arrays.insert block
  else
    let isSubWay ← g.row c.isSubWayOn m
    (c.sets set).arrays.insertFlex block isSubWay

variable {c : Cache g}

lemma checkedPeek_eq (hm : g.HasModules) (c : Cache g) (addr : IntPtr) (isFlexOp : Bool) :
    c.checkedPeek addr isFlexOp = some ((c.peekSingleLine addr true isFlexOp).1,
      (c.peekSingleLine addr true isFlexOp).2.map Fin.val) := by
  have ways := hm.row_eq c.isSubWayOn (g.setIndex_lt (g.tagOf addr))
  have hits := hm.row_eq c.l2Hits (g.setIndex_lt (g.tagOf addr))
  have lookup : (c.sets (g.setIndex (g.tagOf addr))).arrays.findFlex (g.tagOf addr)
      (c.isSubWayOn (g.moduleOf (g.setIndex (g.tagOf addr))))
      (c.sets (g.setIndex (g.tagOf addr))).isLeader = some ((c.findFlex addr).map Fin.val) :=
    CacheSet.findFlex_arrays _ _ _ _
  cases isFlexOp with
  | false => simp [checkedPeek, peekSingleLine, ways, lookup]
  | true =>
    cases found : c.findFlex addr with
    | none =>
      rw [found] at lookup
      simp [checkedPeek, peekSingleLine, ways, lookup, found]
    | some i =>
      rw [found] at lookup
      simp [checkedPeek, peekSingleLine, ways, hits, lookup, found, countHit,
        Geometry.moduleIndex_toNat]

lemma checkedPeek_eq_none (without : ¬ g.HasModules) (c : Cache g) (addr : IntPtr)
    (isFlexOp : Bool) : c.checkedPeek addr isFlexOp = none := by
  simp [checkedPeek, Geometry.row_eq_none without]

def inserted (c : Cache g) (addr : IntPtr) : SetArrays g.assoc × Option CacheBlockInfo :=
  let r := c.insertSingleLine addr true
  ((r.1.sets (g.setIndex (g.tagOf addr))).arrays, r.2)

variable {addr : IntPtr}

lemma checkedInsert_leader (leader : (c.setAt addr).isLeader = true) :
    c.checkedInsert addr = some (c.inserted addr) := by
  simp [checkedInsert, inserted, insertSingleLine, leader, CacheSet.insert_arrays, setSet]

lemma checkedInsert_follower (hm : g.HasModules) (follower : (c.setAt addr).isLeader = false) :
    c.checkedInsert addr = if 8 ≤ g.assoc then some (c.inserted addr) else none := by
  have inside := g.setIndex_lt (g.tagOf addr)
  simp [checkedInsert, inserted, insertSingleLine, follower, CacheSet.insertFlex_arrays, setSet,
    hm.row_eq _ inside, mask]

/-- The accesses of lookups and fills stay inside the arrays for every address if and only if
the cache has one of the three set counts with modules and at least eight ways. Without modules
nothing is known about which sets are leader sets. -/
theorem accesses_inside_iff (g : Geometry) (c : Cache g)
    (leaders : g.HasModules → ∀ s, (c.sets s).isLeader = g.createsLeader s) :
    (∀ addr, (∀ isFlexOp, (c.checkedPeek addr isFlexOp).isSome = true) ∧
      (c.checkedInsert addr).isSome = true) ↔ g.HasModules ∧ 8 ≤ g.assoc := by
  constructor
  · intro inside
    have hm : g.HasModules := by
      by_contra without
      have := (inside 0#64).1 true
      rw [checkedPeek_eq_none without] at this
      cases this
    refine ⟨hm, ?_⟩
    by_contra narrow
    have zero : g.tagOf 0#64 = 0#64 := by simp [Geometry.tagOf]
    have follower : (c.setAt 0#64).isLeader = false := by
      rw [leaders hm, zero]
      exact hm.follower
    have := (inside 0#64).2
    rw [checkedInsert_follower hm follower, if_neg narrow] at this
    cases this
  · rintro ⟨hm, wide⟩ addr
    refine ⟨fun isFlexOp => by rw [checkedPeek_eq hm]; rfl, ?_⟩
    cases leader : (c.setAt addr).isLeader with
    | true => rw [checkedInsert_leader leader]; rfl
    | false => rw [checkedInsert_follower hm leader, if_pos wide]; rfl

/-- 4096 sets of eight ways. -/
theorem eight_ways_inside : let g : Geometry := ⟨6, 4096, 8, .mask, by decide, by decide, by decide⟩
    ∀ addr, (∀ isFlexOp, ((Cache.new g).checkedPeek addr isFlexOp).isSome = true) ∧
      ((Cache.new g).checkedInsert addr).isSome = true :=
  (accesses_inside_iff _ (Cache.new _) fun _ _ => rfl).mpr ⟨.inl rfl, le_rfl⟩

/-- With 2048 sets the lookup of address 0 uses module -1, and with four ways its fill logs a block
that the set does not have. -/
theorem accesses_outside : let g : Geometry := ⟨6, 2048, 8, .mask, by decide, by decide, by decide⟩
    let h : Geometry := ⟨6, 4096, 4, .mask, by decide, by decide, by decide⟩
    (g.moduleIndex (g.setIndex (g.tagOf 0#64)) = -1 ∧ (Cache.new g).checkedPeek 0#64 true = none) ∧
      (Cache.new h).checkedInsert 0#64 = none := by
  refine ⟨⟨by decide, checkedPeek_eq_none (by simp [Geometry.HasModules]) _ _ _⟩, ?_⟩
  exact (checkedInsert_follower (.inl rfl) (by decide)).trans (if_neg (by decide))

end Cache

end Sniper
