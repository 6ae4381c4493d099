import Sniper.Cache.Operations
import Sniper.Lib.Runs

/-!
# TLBs

`TLB` is a cache of page numbers. A first-level TLB hands the pages that it evicts to the second
level. A hit in the second level leaves the page there while the first level takes it in as well,
and when the first level evicts it again it is inserted in the second level without a look whether
it is still there. So the first level holds every page once, and the second level may hold a page in
several ways.
-/

namespace Sniper

open Function

namespace CacheSet

variable {A : Nat} [NeZero A] {s : CacheSet A} {b : CacheBlockInfo}

lemma insert_unique_iff (unique : s.Unique) (valid : b.isValid = true) :
    (s.insert b).set.Unique ↔ ∀ j, (s.blocks j).tag = b.tag → j = s.replacementWay := by
  have filled : (s.insert b).set.blocks = (s.setBlock s.replacementWay b).blocks := rfl
  constructor
  · intro after j same
    by_contra other
    refine other (after s.replacementWay j ?_ ?_).symm
    · rwa [filled, setBlock_self]
    · rw [filled, setBlock_self, setBlock_of_ne s b other, same]
  · intro only
    have after : (s.setBlock s.replacementWay b).Unique :=
      unique.setBlock fun _ j other same => other (only j same)
    intro i j
    rw [filled]
    exact after i j

end CacheSet

namespace Cache

variable {g : Geometry} {c d : Cache g}

def Unique (c : Cache g) : Prop := ∀ s, (c.sets s).Unique

lemma new_unique (g : Geometry) : (new g).Unique := fun s => (new_placed g s).unique

lemma SameBlocks.unique (same : SameBlocks c d) (unique : d.Unique) : c.Unique := by
  intro s i j
  rw [same s]
  exact unique s i j

lemma insertSingleLine_eq (c : Cache g) (addr : IntPtr) : c.insertSingleLine addr false =
      (c.setSet (g.setIndex (g.tagOf addr)) ((c.setAt addr).insert ⟨g.tagOf addr, .invalid⟩).set,
        ((c.setAt addr).insert ⟨g.tagOf addr, .invalid⟩).evicted) := rfl

lemma insertSingleLine_unique_iff (unique : c.Unique) (addr : IntPtr) :
    (c.insertSingleLine addr false).1.Unique ↔
      ∀ j, ((c.setAt addr).blocks j).tag = g.tagOf addr → j = (c.setAt addr).replacementWay := by
  have valid : (⟨g.tagOf addr, .invalid⟩ : CacheBlockInfo).isValid = true :=
    (CacheBlockInfo.isValid_iff _).mpr (g.tagOf_ne_noTag addr)
  rw [← CacheSet.insert_unique_iff (unique (g.setIndex (g.tagOf addr))) valid, insertSingleLine_eq]
  constructor
  · intro after
    have here := after (g.setIndex (g.tagOf addr))
    simpa only [setSet, update_self] using here
  · intro here s
    by_cases filled : s = g.setIndex (g.tagOf addr)
    · rw [filled]
      simpa only [setSet, update_self] using here
    · simpa only [setSet, update_of_ne filled] using unique s

end Cache

/-! ## Two levels -/

/-- `SIM_PAGE_SHIFT`. -/
def simPageShift : Nat := 12

lemma simPageShift_pos : 0 < simPageShift := by decide

/-- The constructor parameters of a TLB, with the assertion of the constructor. -/
structure TLBConfig where
  numEntries : Nat
  associativity : Nat
  assoc_pos : 0 < associativity
  sets_pos : 0 < numEntries / associativity
  multiple : numEntries / associativity * associativity = numEntries

def TLBConfig.geometry (c : TLBConfig) : Geometry where
  logBlocksize := simPageShift
  numSets := c.numEntries / c.associativity
  assoc := c.associativity
  hash := .mask
  block_pos := simPageShift_pos
  sets_pos := c.sets_pos
  assoc_pos := c.assoc_pos

structure TLB (first second : TLBConfig) where
  cache : Cache first.geometry
  nextLevel : Cache second.geometry

namespace TLB

variable {first second : TLBConfig}

def new (first second : TLBConfig) : TLB first second := ⟨.new _, .new _⟩

variable (t : TLB first second)

/-- `allocate`; the next level takes in what is evicted, and drops what it evicts itself. -/
def allocate (address : IntPtr) : TLB first second where
  cache := (t.cache.insertSingleLine address false).1
  nextLevel :=
    match (t.cache.insertSingleLine address false).2 with
    | none => t.nextLevel
    | some block =>
      (t.nextLevel.insertSingleLine (first.geometry.tagToAddress block.tag) false).1

/-- `lookup`: the TLB afterwards, and whether the page was found in one of the levels. -/
def lookup (address : IntPtr) (allocateOnMiss : Bool) : TLB first second × Bool :=
  let here := t.cache.accessSingleLine address true
  if here.2.isSome then ({ t with cache := here.1 }, true)
  else
    let next := t.nextLevel.accessSingleLine address true
    let t : TLB first second := ⟨here.1, next.1⟩
    (if allocateOnMiss then t.allocate address else t, next.2.isSome)

def access (address : IntPtr) : TLB first second :=
  (t.lookup address true).1

def Unique : Prop := t.cache.Unique ∧ t.nextLevel.Unique

/-- If the access makes the first level evict a page, no way of the second level holds the page
other than the one that is going to. -/
def HandsOver (address : IntPtr) : Prop :=
  t.cache.find address = none → ∀ block ∈ (t.cache.insertSingleLine address false).2,
    let page := first.geometry.tagToAddress block.tag
    let set := (t.nextLevel.accessSingleLine address true).1.setAt page
    ∀ j, (set.blocks j).tag = second.geometry.tagOf page → j = set.replacementWay

variable {t : TLB first second} {address : IntPtr}

lemma access_hit {i : Fin first.geometry.assoc} (found : t.cache.find address = some i) :
    t.access address = { t with cache := (t.cache.accessSingleLine address true).1 } := by
  have hit : (t.cache.accessSingleLine address true).2.isSome = true := by
    rw [t.cache.accessSingleLine_way, found, Option.isSome_some]
  rw [access, lookup, if_pos hit]

open Cache

lemma access_miss (missed : t.cache.find address = none) : t.access address = allocate
      ⟨t.cache, (t.nextLevel.accessSingleLine address true).1⟩ address := by
  have unchanged : t.cache.accessSingleLine address true = (t.cache, none) := by
    rw [accessSingleLine, missed]
  rw [access, lookup, unchanged]
  rfl

lemma allocate_cache_unique (unique : t.cache.Unique) (missed : t.cache.find address = none) :
    (t.allocate address).cache.Unique := by
  have absent := CacheSet.find_eq_none.mp missed
  exact (insertSingleLine_unique_iff unique address).mpr fun j same => absurd same (absent j)

lemma access_cache_unique (unique : t.cache.Unique) : (t.access address).cache.Unique := by
  cases found : t.cache.find address with
  | some i =>
    rw [access_hit found]
    exact (t.cache.accessSingleLine_sameBlocks address true).unique unique
  | none =>
    rw [access_miss found]
    exact allocate_cache_unique unique found

lemma access_unique_iff (unique : t.Unique) : (t.access address).Unique ↔ t.HandsOver address := by
  rw [Unique, and_iff_right (access_cache_unique unique.1)]
  cases found : t.cache.find address with
  | some i =>
    rw [access_hit found]
    refine iff_of_true unique.2 fun missed => ?_
    rw [found] at missed
    cases missed
  | none =>
    have next := (t.nextLevel.accessSingleLine_sameBlocks address true).unique unique.2
    rw [access_miss found, HandsOver, imp_iff_right found, allocate]
    cases (t.cache.insertSingleLine address false).2 with
    | none => exact iff_of_true next fun _ evicted => absurd evicted (Option.not_mem_none _)
    | some block =>
      simp only [Option.mem_some_iff, forall_eq']
      exact insertSingleLine_unique_iff next _

/-- For all sizes and associativities and every sequence of lookups with allocation: no set of
either TLB ever holds a page in two ways, exactly when every page that the first level evicts is at
that time in no way of the second level, other than the one that is overwritten. -/
theorem pages_unique_iff (first second : TLBConfig) (addresses : List IntPtr) :
    Runs.Throughout access Unique (new first second) addresses ↔
      Runs.Guarded access HandsOver (new first second) addresses := by
  refine Runs.throughout_iff_guarded (I := Unique) ?_ ?_ ?_ ?_ addresses
  · intro t address unique handed
    exact (access_unique_iff unique).mpr handed
  · intro t unique
    exact unique
  · intro t address unique kept after
    exact kept ((access_unique_iff unique).mp after)
  · exact ⟨new_unique _, new_unique _⟩

/-- One entry in the first level and four in one set of the second: two pages that are looked up in
turn, twice. -/
theorem page_in_two_ways : let first : TLBConfig := ⟨1, 1, by decide, by decide, by decide⟩;
    let second : TLBConfig := ⟨4, 4, by decide, by decide, by decide⟩;
    let t := Runs.run access (new first second) [0x1000, 0x2000, 0x1000, 0x2000];
    ((t.nextLevel.sets 0).blocks (0 : Fin 4)).tag = 1 ∧
      ((t.nextLevel.sets 0).blocks (2 : Fin 4)).tag = 1 ∧ ¬ t.Unique := by
  intro first second t
  have twice : ((t.nextLevel.sets 0).blocks (0 : Fin 4)).tag = 1 ∧
      ((t.nextLevel.sets 0).blocks (2 : Fin 4)).tag = 1 := by decide +kernel
  refine ⟨twice.1, twice.2, fun unique => ?_⟩
  have same : (0 : Fin 4) = 2 := unique.2 0 (0 : Fin 4) (2 : Fin 4)
    ((CacheBlockInfo.isValid_iff _).mpr (by rw [twice.1]; decide)) (twice.1.trans twice.2.symm)
  exact absurd same (by decide)

end TLB

end Sniper
