import Sniper.Cache.Block

/-!
# Cache geometry

`CacheBase` and the parts of the `Cache` constructor that are computed once:
the address hash, the division of the sets into modules, and the choice of the
leader sets. No address home lookup is attached to these caches, so a set index
is a function of the block number, and the block number is the tag.
-/

namespace Sniper

/-- `CacheBase::hash_t`. -/
inductive AddressHash where
  | mask
  | mod
  | rng1Mod
  | rng2Mod
  deriving DecidableEq, Repr

/-- `rng_seed`. -/
def rngSeed (seed : IntPtr) : IntPtr := (seed <<< 16) + 0x330E#64

/-- `rng_next`: the new state and the number drawn. -/
def rngNext (state : IntPtr) : IntPtr × IntPtr :=
  let state := (0x5DEECE66D#64 * state + 0xB#64) &&& 0xFFFFFFFFFFFF#64
  (state, state >>> 16)

/-- The constructor parameters of a cache. Blocks have at least two bytes, so
that no address has the all-ones tag. -/
structure Geometry where
  logBlocksize : Nat
  numSets : Nat
  assoc : Nat
  hash : AddressHash
  block_pos : 0 < logBlocksize
  sets_pos : 0 < numSets
  assoc_pos : 0 < assoc

namespace Geometry

variable (g : Geometry)

instance : NeZero g.assoc := ⟨Nat.pos_iff_ne_zero.mp g.assoc_pos⟩

def tagOf (addr : IntPtr) : IntPtr := addr >>> g.logBlocksize

def tagToAddress (tag : IntPtr) : IntPtr := tag <<< g.logBlocksize

/-- The switch of `splitAddress`. -/
def setIndex (tag : IntPtr) : Nat :=
  match g.hash with
  | .mask => tag.toNat &&& (g.numSets - 1)
  | .mod => tag.toNat % g.numSets
  | .rng1Mod => (rngNext (rngSeed tag)).2.toNat % g.numSets
  | .rng2Mod => (rngNext (rngNext (rngSeed tag)).1).2.toNat % g.numSets

lemma setIndex_lt (tag : IntPtr) : g.setIndex tag < g.numSets := by
  have hpos := g.sets_pos
  unfold setIndex
  cases g.hash with
  | mask =>
    have hle : tag.toNat &&& (g.numSets - 1) ≤ g.numSets - 1 := Nat.and_le_right
    simp only
    omega
  | mod => exact Nat.mod_lt _ hpos
  | rng1Mod => exact Nat.mod_lt _ hpos
  | rng2Mod => exact Nat.mod_lt _ hpos

def IsLine (tag : IntPtr) : Prop := g.tagOf (g.tagToAddress tag) = tag

lemma tagOf_isLine (addr : IntPtr) : g.IsLine (g.tagOf addr) := by
  unfold IsLine tagOf tagToAddress
  ext i
  simp
  grind

lemma tagOf_ne_noTag (addr : IntPtr) : g.tagOf addr ≠ noTag := by
  intro h
  have top := congrArg (fun t => t.getLsbD 63) h
  simp only [tagOf, noTag, BitVec.getLsbD_ushiftRight, BitVec.getLsbD_allOnes] at top
  have hlt := BitVec.lt_of_getLsbD (by simpa using top)
  have hpos := g.block_pos
  omega

/-- `p_num_modules`; other set counts are left without modules. -/
def numModules : Nat :=
  if g.numSets = 4096 then 8
  else if g.numSets = 8192 then 16
  else if g.numSets = 16384 then 32
  else 0

/-- The set counts the constructor knows how to divide into modules. -/
def HasModules : Prop := g.numSets = 4096 ∨ g.numSets = 8192 ∨ g.numSets = 16384

/-- `p_module_size`. -/
def moduleSize : Nat := g.numSets / g.numModules

/-- `Cache::getModuleIndex`, with -1 as `none`. -/
def getModuleIndex (set : Nat) : Option Nat :=
  (List.range g.numModules).find? fun i =>
    set < g.moduleSize * (i + 1) && g.moduleSize * i ≤ set

/-- The row of `isSubWayOn` and `L2Hits` used for a set. -/
def moduleOf (set : Nat) : Nat := (g.getModuleIndex set).getD 0

variable {g}

lemma HasModules.moduleSize_eq (hm : g.HasModules) : g.moduleSize = 512 := by
  rcases hm with h | h | h <;> simp [moduleSize, numModules, h]

lemma HasModules.numSets_eq (hm : g.HasModules) : g.numSets = 512 * g.numModules := by
  rcases hm with h | h | h <;> simp [numModules, h]

variable {set : Nat}

lemma HasModules.getModuleIndex_eq (hm : g.HasModules)
    (hs : set < g.numSets) : g.getModuleIndex set = some (set / 512) := by
  have hn := hm.numSets_eq
  have inRange : set / 512 < g.numModules := by omega
  unfold getModuleIndex
  rw [List.find?_range_eq_some, hm.moduleSize_eq]
  refine ⟨by simp; omega, List.mem_range.mpr inRange, ?_⟩
  intro j hj
  simp
  omega

lemma HasModules.moduleOf_eq (hm : g.HasModules)
    (hs : set < g.numSets) : g.moduleOf set = set / 512 := by
  simp [moduleOf, hm.getModuleIndex_eq hs]

variable (g)

/-- `a_index` of the constructor's loop when it reaches set `i`. -/
def aIndex : Nat → Nat
  | 0 => 1
  | i + 1 =>
    let a := aIndex i
    if a ≤ g.numSets / 64 ∧ i = a * 64 - 1 then a + 1 else a

/-- Whether the constructor makes set `i` a leader set. -/
def createsLeader (i : Nat) : Bool :=
  decide (g.aIndex i ≤ g.numSets / 64 ∧ i = g.aIndex i * 64 - 1)

end Geometry

end Sniper
