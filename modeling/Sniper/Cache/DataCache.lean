import Sniper.Cache.Placement

/-!
# Caches with data arrays

`Cache` as the DRAM cache and the NUCA cache use it: every set has a data array, all ways are on,
and an address home lookup may come before the address hash. Accesses are to whole lines. From
outside such a cache is a map from lines to states and data, and every operation on it writes one
way of one set.
-/

namespace Sniper

open Function CacheSet CacheBlockInfo Option

/-- `AddressHomeLookup`. -/
structure AddressHomeLookup where
  ahlParam : Nat
  totalModules : Nat
  deriving DecidableEq, Repr

namespace AddressHomeLookup

variable (ahl : AddressHomeLookup)

def getLinearBlock (address : IntPtr) : IntPtr :=
  (address >>> ahl.ahlParam) / BitVec.ofNat 64 ahl.totalModules

def getLinearAddress (address : IntPtr) : IntPtr :=
  (ahl.getLinearBlock address <<< ahl.ahlParam) ||| (address &&& ((1#64 <<< ahl.ahlParam) - 1#64))

end AddressHomeLookup

namespace Geometry

abbrev Line (g : Geometry) := { tag : IntPtr // g.IsLine tag }

variable {g : Geometry}

namespace Line

def address (line : g.Line) : IntPtr := g.tagToAddress line.val

@[simp] lemma tagOf_address (line : g.Line) : g.tagOf line.address = line.val := line.property

lemma address_injective : Function.Injective (address : g.Line → IntPtr) := by
  intro line other same
  refine Subtype.ext ?_
  rw [← line.tagOf_address, same, other.tagOf_address]

lemma ne_noTag (line : g.Line) : line.val ≠ noTag := by
  rw [← line.tagOf_address]
  exact g.tagOf_ne_noTag line.address

end Line

end Geometry

/-- The constructor parameters of a cache that may have an address home lookup. -/
structure HomedGeometry extends Geometry where
  ahl : Option AddressHomeLookup

/-- The set that `splitAddress` selects. -/
def HomedGeometry.setOf (g : HomedGeometry) (address : IntPtr) : Nat :=
  match g.ahl with
  | some ahl => g.setIndex (g.tagOf (ahl.getLinearAddress address))
  | none => g.setIndex (g.tagOf address)

structure CachedLine (D : Type*) where
  cstate : CState
  data : D

/-! ## One set -/

/-- A set with its data array, `m_blocks`. -/
structure DataSet (A : Nat) (D : Type*) where
  set : CacheSet A
  data : Fin A → D

namespace DataSet

variable {A : Nat} {D : Type*}

def write (s : DataSet A D) (i : Fin A) (b : CacheBlockInfo) (d : D) : DataSet A D where
  set := s.set.setBlock i b
  data := update s.data i d

/-- `CacheSet::insert`, with the evicted descriptor and its data. -/
def insert [NeZero A] (s : DataSet A D) (b : CacheBlockInfo) (fill : D) :
    DataSet A D × Option (CacheBlockInfo × D) :=
  let way := s.set.getReplacementIndex.1
  let block := s.set.blocks way
  (DataSet.write ⟨s.set.getReplacementIndex.2, s.data⟩ way b fill,
    if block.isValid then some (block, s.data way) else none)

def line (s : DataSet A D) (tag : IntPtr) : Option (CachedLine D) :=
  (s.set.find tag).map fun i => ⟨(s.set.blocks i).cstate, s.data i⟩

variable {s : DataSet A D} {i : Fin A} {b : CacheBlockInfo} {d : D} {tag : IntPtr}

lemma line_of_block (unique : s.set.Unique) (htag : (s.set.blocks i).tag = tag)
    (hne : tag ≠ noTag) : s.line tag = some ⟨(s.set.blocks i).cstate, s.data i⟩ := by
  have valid : (s.set.blocks i).isValid = true := (isValid_iff _).mpr (htag ▸ hne)
  rw [line, unique.find_eq valid htag, map_some]

lemma line_eq_none (absent : ∀ i, (s.set.blocks i).tag ≠ tag) : s.line tag = none := by
  rw [line, find_eq_none.mpr absent, map_none]

lemma line_write (unique : s.set.Unique) (fresh : ∀ j, j ≠ i → (s.set.blocks j).tag ≠ b.tag)
    (hne : tag ≠ noTag) : (s.write i b d).line tag = if tag = b.tag then some ⟨b.cstate, d⟩
      else if tag = (s.set.blocks i).tag then none else s.line tag := by
  split
  · next new =>
    have after : ((s.write i b d).set.blocks i).tag = tag := by
      rw [new]
      exact congrArg CacheBlockInfo.tag (setBlock_self _ _ _)
    rw [line_of_block (unique.setBlock fun _ => fresh) after hne]
    simp [write]
  · next other =>
    split
    · next old =>
      refine line_eq_none fun j => ?_
      by_cases here : j = i
      · subst here
        simpa [write] using Ne.symm other
      · rw [write, setBlock_of_ne _ _ here]
        intro same
        have valid : (s.set.blocks i).isValid = true := (isValid_iff _).mpr (old ▸ hne)
        exact here (unique i j valid (old.symm.trans same.symm)).symm
    · next third =>
      rw [line, line, write, find_setBlock (Ne.symm third) (Ne.symm other)]
      cases found : s.set.find tag with
      | none => rfl
      | some j =>
        have away : j ≠ i := by
          rintro rfl
          exact third (find_tag found).symm
        simp [away]

end DataSet

/-! ## The cache -/

structure DataCache (g : HomedGeometry) (D : Type*) where
  sets : Nat → DataSet g.assoc D

namespace DataCache

variable {g : HomedGeometry} {D : Type*}

/-- The constructor: nothing is cached, the data arrays are zero. -/
def new (g : HomedGeometry) (zero : D) : DataCache g D where
  sets := fun i => ⟨CacheSet.new g.assoc (g.createsLeader i), fun _ => zero⟩

variable (c : DataCache g D)

def setSet (n : Nat) (s : DataSet g.assoc D) : DataCache g D where
  sets := update c.sets n s

variable (address : IntPtr)

/-- `Cache::peekSingleLine`. -/
def peekSingleLine : Option (Fin g.assoc) :=
  (c.sets (g.setOf address)).set.find (g.tagOf address)

/-- `setCState` through the pointer of `peekSingleLine`. -/
def setCState (cstate : CState) : DataCache g D :=
  match c.peekSingleLine address with
  | none => c
  | some i =>
    let s := c.sets (g.setOf address)
    c.setSet (g.setOf address) (s.write i { s.set.blocks i with cstate := cstate } (s.data i))

/-- `Cache::accessSingleLine` for a load of the whole line: the bytes it reads. -/
def loadSingleLine : DataCache g D × Option D :=
  match c.peekSingleLine address with
  | none => (c, none)
  | some i =>
    let s := c.sets (g.setOf address)
    (c.setSet (g.setOf address) { s with set := s.set.updateReplacementIndex i }, some (s.data i))

/-- `Cache::accessSingleLine` for a store of the whole line. -/
def storeSingleLine (data : D) : DataCache g D :=
  match c.peekSingleLine address with
  | none => c
  | some i =>
    let s := c.sets (g.setOf address)
    let s := s.write i (s.set.blocks i) data
    c.setSet (g.setOf address) { s with set := s.set.updateReplacementIndex i }

structure Evicted (D : Type*) where
  address : IntPtr
  cstate : CState
  data : D

/-- `Cache::insertSingleLine`. The new block has its tag set but keeps the state INVALID. -/
def insertSingleLine (fill : D) : DataCache g D × Option (Evicted D) :=
  let inserted := (c.sets (g.setOf address)).insert ⟨g.tagOf address, .invalid⟩ fill
  (c.setSet (g.setOf address) inserted.1,
    inserted.2.map fun out => ⟨g.tagToAddress out.1.tag, out.1.cstate, out.2⟩)

/-! ## What the cache holds of a line -/

def line (line : g.Line) : Option (CachedLine D) :=
  (c.sets (g.setOf line.address)).line line.val

structure Housed (c : DataCache g D) : Prop where
  unique : ∀ n, (c.sets n).set.Unique
  home : ∀ n i, ((c.sets n).set.blocks i).tag ≠ noTag →
    ∃ line : g.Line, line.val = ((c.sets n).set.blocks i).tag ∧ g.setOf line.address = n

def SameLines (c d : DataCache g D) : Prop :=
  ∀ n, (c.sets n).set.blocks = (d.sets n).set.blocks ∧ (c.sets n).data = (d.sets n).data

variable {c d : DataCache g D} {n : Nat} {i : Fin g.assoc} {b : CacheBlockInfo} {data : D}
  {l : g.Line}

lemma SameLines.line (same : SameLines c d) : c.line = d.line := by
  funext l
  simp only [DataCache.line, DataSet.line, find, same (g.setOf l.address)]

lemma SameLines.housed (same : SameLines c d) (housed : d.Housed) : c.Housed := by
  refine ⟨fun n i j => ?_, fun n i => ?_⟩
  · rw [(same n).1]
    exact housed.unique n i j
  · rw [(same n).1]
    exact housed.home n i

lemma sets_setSet (c : DataCache g D) (n : Nat) (s : DataSet g.assoc D) (m : Nat) :
    (c.setSet n s).sets m = if m = n then s else c.sets m :=
  update_apply c.sets n s m

lemma sameLines_setSet {s r : DataSet g.assoc D} (blocks : s.set.blocks = r.set.blocks)
    (same : s.data = r.data) : SameLines (c.setSet n s) (c.setSet n r) := by
  intro m
  rw [sets_setSet, sets_setSet]
  split
  · exact ⟨blocks, same⟩
  · exact ⟨rfl, rfl⟩

lemma line_eq_map (c : DataCache g D) (l : g.Line) :
    c.line l = (c.peekSingleLine l.address).map fun i =>
      ⟨((c.sets (g.setOf l.address)).set.blocks i).cstate,
        (c.sets (g.setOf l.address)).data i⟩ := by
  rw [line, DataSet.line, peekSingleLine, l.tagOf_address]

lemma peek_of_line {cached : CachedLine D} (held : c.line l = some cached) :
    ∃ i, c.peekSingleLine l.address = some i ∧
      ((c.sets (g.setOf l.address)).set.blocks i) = ⟨l.val, cached.cstate⟩ ∧
      (c.sets (g.setOf l.address)).data i = cached.data := by
  rw [line_eq_map] at held
  obtain ⟨i, found, rfl⟩ := map_eq_some_iff.mp held
  have tag := find_tag found
  rw [l.tagOf_address] at tag
  exact ⟨i, found, CacheBlockInfo.ext tag rfl, rfl⟩

lemma peek_of_absent (absent : c.line l = none) : c.peekSingleLine l.address = none := by
  rw [line_eq_map] at absent
  exact map_eq_none_iff.mp absent

lemma tag_of_absent (absent : c.line l = none) (i : Fin g.assoc) :
    ((c.sets (g.setOf l.address)).set.blocks i).tag ≠ l.val := by
  have none := find_eq_none.mp (peek_of_absent absent) i
  rwa [l.tagOf_address] at none

lemma Housed.write (housed : c.Housed) (tag : b.tag = l.val) (home : g.setOf l.address = n)
    (fresh : ∀ j, j ≠ i → ((c.sets n).set.blocks j).tag ≠ b.tag) :
    (c.setSet n ((c.sets n).write i b data)).Housed := by
  refine ⟨fun m => ?_, fun m j => ?_⟩
  · rw [sets_setSet]
    split
    · exact (housed.unique n).setBlock fun _ => fresh
    · exact housed.unique m
  · rw [sets_setSet]
    split
    · next here =>
      by_cases way : j = i
      · subst way
        rw [DataSet.write, setBlock_self]
        exact fun _ => ⟨l, tag.symm, home.trans here.symm⟩
      · rw [DataSet.write, setBlock_of_ne _ _ way, here]
        exact housed.home n j
    · exact housed.home m j

lemma Housed.line_write (housed : c.Housed) (tag : b.tag = l.val) (home : g.setOf l.address = n)
    (fresh : ∀ j, j ≠ i → ((c.sets n).set.blocks j).tag ≠ b.tag) (other : g.Line) :
    (c.setSet n ((c.sets n).write i b data)).line other = if other = l then some ⟨b.cstate, data⟩
      else if other.val = ((c.sets n).set.blocks i).tag then none else c.line other := by
  rw [line, sets_setSet]
  by_cases here : g.setOf other.address = n
  · rw [if_pos here, DataSet.line_write (housed.unique n) fresh other.ne_noTag, tag]
    simp only [Subtype.ext_iff, line, here]
  · rw [if_neg here, if_neg, if_neg, line]
    · intro same
      obtain ⟨line, held, there⟩ := housed.home n i (same ▸ other.ne_noTag)
      rw [← same] at held
      rw [Subtype.ext held] at there
      exact here there
    · rintro rfl
      exact here home

/-! ## The operations -/

section

variable (housed : c.Housed)

include housed

lemma Housed.load (l : g.Line) :
    (c.loadSingleLine l.address).1.Housed ∧ (c.loadSingleLine l.address).1.line = c.line ∧
      (c.loadSingleLine l.address).2 = (c.line l).map CachedLine.data := by
  rw [loadSingleLine, line_eq_map]
  cases c.peekSingleLine l.address with
  | none => exact ⟨housed, rfl, rfl⟩
  | some i =>
    have same : SameLines (c.setSet (g.setOf l.address) { c.sets (g.setOf l.address) with
          set := (c.sets (g.setOf l.address)).set.updateReplacementIndex i }) c := by
      intro m
      rw [sets_setSet]
      split
      · next here =>
        rw [here]
        exact ⟨rfl, rfl⟩
      · exact ⟨rfl, rfl⟩
    exact ⟨same.housed housed, same.line, rfl⟩

lemma Housed.overwrite
    (held : ((c.sets (g.setOf l.address)).set.blocks i).tag = l.val) (cstate : CState) (data : D) :
    (c.setSet (g.setOf l.address)
      ((c.sets (g.setOf l.address)).write i ⟨l.val, cstate⟩ data)).Housed ∧
    (c.setSet (g.setOf l.address)
      ((c.sets (g.setOf l.address)).write i ⟨l.val, cstate⟩ data)).line =
        update c.line l (some ⟨cstate, data⟩) := by
  have fresh : ∀ j, j ≠ i → ((c.sets (g.setOf l.address)).set.blocks j).tag ≠ l.val := by
    intro j away same
    have valid : ((c.sets (g.setOf l.address)).set.blocks j).isValid = true :=
      (isValid_iff _).mpr (same ▸ l.ne_noTag)
    exact away (housed.unique _ j i valid (same.trans held.symm))
  refine ⟨housed.write rfl rfl fresh, funext fun other => ?_⟩
  rw [housed.line_write rfl rfl fresh, held, update_apply]
  split
  · rfl
  · next different => rw [if_neg fun same => different (Subtype.ext same)]

variable {cached : CachedLine D}

lemma Housed.store (held : c.line l = some cached)
    (data : D) : (c.storeSingleLine l.address data).Housed ∧
      (c.storeSingleLine l.address data).line = update c.line l (some ⟨cached.cstate, data⟩) := by
  obtain ⟨i, found, block, -⟩ := peek_of_line held
  obtain ⟨after, lines⟩ := housed.overwrite (congrArg tag block) cached.cstate data
  rw [storeSingleLine, found, ← lines]
  dsimp only
  rw [block]
  have same : SameLines (c.setSet (g.setOf l.address)
      { (c.sets (g.setOf l.address)).write i ⟨l.val, cached.cstate⟩ data with
        set := ((c.sets (g.setOf l.address)).write i ⟨l.val, cached.cstate⟩
          data).set.updateReplacementIndex i })
      (c.setSet (g.setOf l.address)
        ((c.sets (g.setOf l.address)).write i ⟨l.val, cached.cstate⟩ data)) :=
    sameLines_setSet rfl rfl
  exact ⟨same.housed after, same.line⟩

lemma Housed.setCState (held : c.line l = some cached) (cstate : CState) :
    (c.setCState l.address cstate).Housed ∧ (c.setCState l.address cstate).line =
        update c.line l (some ⟨cstate, cached.data⟩) := by
  obtain ⟨i, found, block, data⟩ := peek_of_line held
  have after := housed.overwrite (congrArg tag block) cstate cached.data
  rw [DataCache.setCState, found]
  dsimp only
  rw [block, data]
  exact after

lemma Housed.insert (absent : c.line l = none) (fill : D) :
    (c.insertSingleLine l.address fill).1.Housed ∧
    (((c.insertSingleLine l.address fill).2 = none ∧ (c.insertSingleLine l.address fill).1.line =
          update c.line l (some ⟨.invalid, fill⟩)) ∨
      ∃ (victim : g.Line) (cached : CachedLine D), victim ≠ l ∧ c.line victim = some cached ∧
        (c.insertSingleLine l.address fill).2 = some ⟨victim.address, cached.cstate, cached.data⟩ ∧
        (c.insertSingleLine l.address fill).1.line =
          update (update c.line victim none) l (some ⟨.invalid, fill⟩)) := by
  set s := c.sets (g.setOf l.address)
  have fresh : ∀ j, j ≠ s.set.replacementWay → (s.set.blocks j).tag ≠ l.val :=
    fun j _ => tag_of_absent absent j
  have same : SameLines (c.insertSingleLine l.address fill).1
      (c.setSet (g.setOf l.address) (s.write s.set.replacementWay ⟨l.val, .invalid⟩ fill)) := by
    rw [insertSingleLine, l.tagOf_address]
    exact sameLines_setSet rfl rfl
  refine ⟨same.housed (housed.write rfl rfl fresh), ?_⟩
  have lines : ∀ other, (c.insertSingleLine l.address fill).1.line other =
      if other = l then some ⟨.invalid, fill⟩
      else if other.val = (s.set.blocks s.set.replacementWay).tag then none
      else c.line other := by
    rw [same.line]
    exact housed.line_write rfl rfl fresh
  have evicted : (c.insertSingleLine l.address fill).2 =
      (if (s.set.blocks s.set.replacementWay).isValid then
        some (s.set.blocks s.set.replacementWay, s.data s.set.replacementWay)
      else none).map fun out => ⟨g.tagToAddress out.1.tag, out.1.cstate, out.2⟩ := rfl
  by_cases valid : (s.set.blocks s.set.replacementWay).isValid = true
  · right
    obtain ⟨victim, tag, home⟩ := housed.home _ _ ((isValid_iff _).mp valid)
    have held : c.line victim = some ⟨(s.set.blocks s.set.replacementWay).cstate,
        s.data s.set.replacementWay⟩ := by
      rw [line, home]
      exact DataSet.line_of_block (housed.unique _) tag.symm victim.ne_noTag
    have different : victim ≠ l := by
      rintro rfl
      exact tag_of_absent absent _ tag.symm
    refine ⟨victim, _, different, held, ?_, funext fun other => ?_⟩
    · rw [evicted, if_pos valid, map_some, Geometry.Line.address, tag]
    · rw [lines, ← tag, update_apply, update_apply]
      simp only [Subtype.ext_iff]
  · left
    rw [evicted, if_neg valid]
    refine ⟨rfl, funext fun other => ?_⟩
    have empty : (s.set.blocks s.set.replacementWay).tag = noTag := by
      simpa [isValid_iff] using valid
    rw [lines, update_apply, empty, if_neg other.ne_noTag]

end

lemma new_housed (g : HomedGeometry) (zero : D) : (new g zero).Housed :=
  ⟨fun _ _ _ valid => absurd valid (by simp [new, CacheSet.new]), fun _ _ valid => absurd rfl valid⟩

lemma new_line (g : HomedGeometry) (zero : D) (l : g.Line) : (new g zero).line l = none :=
  DataSet.line_eq_none fun _ => l.ne_noTag.symm

end DataCache

/-! ## The smallest cache -/

def oneLine : HomedGeometry where
  logBlocksize := 5
  numSets := 1
  assoc := 1
  hash := .mod
  block_pos := by decide
  sets_pos := by decide
  assoc_pos := by decide
  ahl := none

def firstLine : oneLine.Line := ⟨0, rfl⟩

def secondLine : oneLine.Line := ⟨1, rfl⟩

end Sniper
