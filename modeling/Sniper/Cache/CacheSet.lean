import Sniper.Cache.Block
import Sniper.Lib.Selection
import Sniper.Lib.Recency
import Mathlib.Data.List.TakeWhile

/-!
# Cache sets with LRU replacement

`CacheSet` together with `CacheSetLRU`, the only policy `createCacheSet` still
builds. A pointer to a block is a way number. The LRU counters are bytes; they
only grow towards another counter, so addition never wraps and only their
initial values are reduced. `touched` is a history variable: it lists the ways
in the order in which fills and hits moved them to the most recent position,
latest first, and no operation reads it.
-/

namespace Sniper

structure CacheSet (A : Nat) where
  blocks : Fin A → CacheBlockInfo
  lruBits : Fin A → Nat
  isLeader : Bool
  touched : List (Fin A)

structure Fill (A : Nat) where
  set : CacheSet A
  way : Fin A
  evicted : Option CacheBlockInfo

namespace CacheSet

variable {A : Nat}

def new (A : Nat) (ifLeader : Bool) : CacheSet A where
  blocks := fun _ => .empty
  lruBits := fun i => i.val % 256
  isLeader := ifLeader
  touched := []

variable (s : CacheSet A)

def setBlock (i : Fin A) (b : CacheBlockInfo) : CacheSet A :=
  { s with blocks := Function.update s.blocks i b }

/-- `CacheSet::find`: compares tags only. -/
def find (tag : IntPtr) : Option (Fin A) :=
  Scan.down fun i => (s.blocks i).tag == tag

/-- `CacheSet::findFlex`: only valid blocks, and only in ways that are on unless
the set is a leader set. -/
def findFlex (tag : IntPtr) (isSubWay : Fin A → Bool) (ifLeader : Bool) : Option (Fin A) :=
  Scan.down fun i =>
    (s.blocks i).isValid && ((ifLeader || isSubWay i) && (s.blocks i).tag == tag)

/-- `CacheSet::invalidate`. -/
def invalidate (tag : IntPtr) : CacheSet A :=
  match s.find tag with
  | some i => s.setBlock i .empty
  | none => s

def isValidReplacement (i : Fin A) : Bool :=
  (s.blocks i).cstate != .sharedUpgrading

def moveToMRU (accessed : Fin A) : CacheSet A :=
  { s with
    lruBits := Recency.touch s.lruBits (fun _ => true) accessed
    touched := accessed :: s.touched }

def moveToMRUFlex (accessed : Fin A) (isSubWay : Fin A → Bool) : CacheSet A :=
  { s with
    lruBits := Recency.touch s.lruBits isSubWay accessed
    touched := accessed :: s.touched }

/-- `CacheSetLRU::updateReplacementIndex` without its access statistics. -/
def updateReplacementIndex (accessed : Fin A) : CacheSet A :=
  s.moveToMRU accessed

variable [NeZero A]

/-- The way `getReplacementIndex` returns. -/
def replacementWay (s : CacheSet A) : Fin A :=
  match Scan.up fun i => !(s.blocks i).isValid with
  | some i => i
  | none => Recency.eldest s.lruBits s.isValidReplacement 0

def getReplacementIndex (s : CacheSet A) : Fin A × CacheSet A :=
  (s.replacementWay, s.moveToMRU s.replacementWay)

/-- The way `getReplacementIndexFlex` returns. The search for an invalid block
stops at the first way that is off. -/
def replacementWayFlex (s : CacheSet A) (isSubWay : Fin A → Bool) : Fin A :=
  match ((List.finRange A).takeWhile isSubWay).find? fun i => !(s.blocks i).isValid with
  | some i => i
  | none => Recency.eldest s.lruBits (fun i => isSubWay i && s.isValidReplacement i) 0

def getReplacementIndexFlex (s : CacheSet A) (isSubWay : Fin A → Bool) : Fin A × CacheSet A :=
  (s.replacementWayFlex isSubWay, s.moveToMRUFlex (s.replacementWayFlex isSubWay) isSubWay)

omit [NeZero A] in
def place (i : Fin A) (b : CacheBlockInfo) : Fill A where
  set := s.setBlock i b
  way := i
  evicted := if (s.blocks i).isValid then some (s.blocks i) else none

/-- `CacheSet::insert`. -/
def insert (s : CacheSet A) (b : CacheBlockInfo) : Fill A :=
  s.getReplacementIndex.2.place s.getReplacementIndex.1 b

/-- `CacheSet::insertFlex`. -/
def insertFlex (s : CacheSet A) (b : CacheBlockInfo) (isSubWay : Fin A → Bool) : Fill A :=
  (s.getReplacementIndexFlex isSubWay).2.place (s.getReplacementIndexFlex isSubWay).1 b

section Blocks

omit [NeZero A]

variable (s : CacheSet A)

variable (i : Fin A)

@[simp] lemma moveToMRU_blocks : (s.moveToMRU i).blocks = s.blocks := rfl

@[simp] lemma moveToMRUFlex_blocks (on : Fin A → Bool) :
    (s.moveToMRUFlex i on).blocks = s.blocks := rfl

@[simp] lemma moveToMRU_isLeader : (s.moveToMRU i).isLeader = s.isLeader := rfl

@[simp] lemma moveToMRUFlex_isLeader (on : Fin A → Bool) :
    (s.moveToMRUFlex i on).isLeader = s.isLeader := rfl

@[simp] lemma setBlock_isLeader (b : CacheBlockInfo) : (s.setBlock i b).isLeader = s.isLeader := rfl

@[simp] lemma setBlock_lruBits (b : CacheBlockInfo) : (s.setBlock i b).lruBits = s.lruBits := rfl

@[simp] lemma setBlock_touched (b : CacheBlockInfo) : (s.setBlock i b).touched = s.touched := rfl

@[simp] lemma setBlock_self (b : CacheBlockInfo) :
    (s.setBlock i b).blocks i = b := by simp [setBlock]

@[simp] lemma setBlock_of_ne {i j : Fin A} (b : CacheBlockInfo)
    (h : j ≠ i) : (s.setBlock i b).blocks j = s.blocks j := by simp [setBlock, h]

end Blocks

section Lookup

omit [NeZero A]

variable {s : CacheSet A} {tag : IntPtr} {i : Fin A}

lemma find_tag (h : s.find tag = some i) : (s.blocks i).tag = tag := by
  simpa using Scan.down_holds h

lemma find_eq_none : s.find tag = none ↔ ∀ i, (s.blocks i).tag ≠ tag := by
  simp [find, Scan.down_eq_none]

def Unique (s : CacheSet A) : Prop :=
  ∀ i j, (s.blocks i).isValid = true → (s.blocks i).tag = (s.blocks j).tag → i = j

lemma Unique.find_eq (unique : s.Unique) (valid : (s.blocks i).isValid = true)
    (htag : (s.blocks i).tag = tag) : s.find tag = some i := by
  apply Scan.down_eq_of_unique (by simpa using htag)
  intro j hj
  exact (unique i j valid (htag.trans (by simpa using hj : (s.blocks j).tag = tag).symm)).symm

lemma findFlex_eq_find {on : Fin A → Bool} {leader : Bool} (hne : tag ≠ noTag)
    (seen : ∀ i, (s.blocks i).isValid = true → (leader || on i) = true) :
    s.findFlex tag on leader = s.find tag := by
  refine Scan.down_congr fun i => ?_
  by_cases htag : (s.blocks i).tag = tag
  · have valid : (s.blocks i).isValid = true := by simp [CacheBlockInfo.isValid, htag, hne]
    simp [valid, seen i valid, htag]
  · simp [beq_eq_false_iff_ne.mpr htag]

end Lookup

section Replacement

variable {s : CacheSet A} {on : Fin A → Bool}

lemma replacementWayFlex_on (first : on 0 = true) : on (s.replacementWayFlex on) = true := by
  unfold replacementWayFlex
  split
  · rename_i i found
    exact List.mem_takeWhile_imp (List.mem_of_find?_eq_some found)
  · rcases Recency.eldest_cases s.lruBits (fun i => on i && s.isValidReplacement i) 0 with h | h
    · rw [h]; exact first
    · exact (Bool.and_eq_true_iff.mp h).1

end Replacement

end CacheSet

end Sniper
