import Sniper.Cache.Geometry
import Sniper.Cache.CacheSet

/-!
# The cache

`Cache`: an array of sets, the matrix of switched-on ways and the matrix of hit counts, both with
one row for each module. `fills` is a history variable with one entry for each call of `insertFlex`;
no operation reads it.
-/

namespace Sniper

/-- What one call of `insertFlex` found and which way it took. -/
structure FillRecord (A : Nat) where
  before : CacheSet A
  isSubWay : Fin A → Bool
  way : Fin A

structure Cache (g : Geometry) where
  sets : Nat → CacheSet g.assoc
  isSubWayOn : Nat → Fin g.assoc → Bool
  l2Hits : Nat → Fin g.assoc → Nat
  fills : List (FillRecord g.assoc)

namespace Cache

variable {g : Geometry}

/-- The constructor: nothing is cached, every way is on, no hit is counted. -/
def new (g : Geometry) : Cache g where
  sets := fun i => CacheSet.new g.assoc (g.createsLeader i)
  isSubWayOn := fun _ _ => true
  l2Hits := fun _ _ => 0
  fills := []

variable (c : Cache g)

def setSet (i : Nat) (s : CacheSet g.assoc) : Cache g :=
  { c with sets := Function.update c.sets i s }

abbrev setAt (addr : IntPtr) : CacheSet g.assoc :=
  c.sets (g.setIndex (g.tagOf addr))

/-- The mask `isSubWayOn[getModuleIndex(set_index)]`. -/
def mask (set : Nat) : Fin g.assoc → Bool := c.isSubWayOn (g.moduleOf set)

/-- Lookup by tag alone, as every caller with default arguments does. -/
def find (addr : IntPtr) : Option (Fin g.assoc) :=
  (c.setAt addr).find (g.tagOf addr)

def findFlex (addr : IntPtr) : Option (Fin g.assoc) :=
  (c.setAt addr).findFlex (g.tagOf addr) (c.mask (g.setIndex (g.tagOf addr)))
    (c.setAt addr).isLeader

/-- One more hit in way `i` of the module of `set`. -/
def countHit (set : Nat) (i : Fin g.assoc) : Cache g :=
  { c with
    l2Hits := Function.update c.l2Hits (g.moduleOf set)
      (Function.update (c.l2Hits (g.moduleOf set)) i (c.l2Hits (g.moduleOf set) i + 1)) }

/-- `Cache::peekSingleLine`. Only the flex operation counts its hits. -/
def peekSingleLine (addr : IntPtr) (isShared isFlexOp : Bool) : Cache g × Option (Fin g.assoc) :=
  if isShared && isFlexOp then
    match c.findFlex addr with
    | some i => (c.countHit (g.setIndex (g.tagOf addr)) i, some i)
    | none => (c, none)
  else if isShared then (c, c.findFlex addr)
  else (c, c.find addr)

/-- `Cache::invalidateSingleLine`. -/
def invalidateSingleLine (addr : IntPtr) : Cache g :=
  c.setSet (g.setIndex (g.tagOf addr)) ((c.setAt addr).invalidate (g.tagOf addr))

/-- `Cache::accessSingleLine`; reads and writes differ in the data only. -/
def accessSingleLine (addr : IntPtr) (updateReplacement : Bool) : Cache g × Option (Fin g.assoc) :=
  match c.find addr with
  | none => (c, none)
  | some i =>
    if updateReplacement then
      (c.setSet (g.setIndex (g.tagOf addr)) ((c.setAt addr).updateReplacementIndex i), some i)
    else (c, some i)

/-- `Cache::insertSingleLine`: the new cache and the block it evicts. The new
block has its tag set but keeps the state INVALID. -/
def insertSingleLine (addr : IntPtr) (isShared : Bool) : Cache g × Option CacheBlockInfo :=
  let set := g.setIndex (g.tagOf addr)
  let block : CacheBlockInfo := ⟨g.tagOf addr, .invalid⟩
  if isShared && !(c.sets set).isLeader then
    let fill := (c.sets set).insertFlex block (c.mask set)
    ({ c.setSet set fill.set with fills := c.fills ++ [⟨c.sets set, c.mask set, fill.way⟩] },
      fill.evicted)
  else
    let fill := (c.sets set).insert block
    (c.setSet set fill.set, fill.evicted)

def put (set : Nat) (i : Fin g.assoc) (b : CacheBlockInfo) : Cache g :=
  c.setSet set ((c.sets set).setBlock i b)

/-- `CacheBlockInfo::setCState` through a pointer into a set. -/
def setCState (set : Nat) (i : Fin g.assoc) (st : CState) : Cache g :=
  c.put set i { (c.sets set).blocks i with cstate := st }

/-- `getCacheState(address)`: the state of the block found by tag. -/
def getCacheState (addr : IntPtr) : CState :=
  match c.find addr with
  | some i => ((c.setAt addr).blocks i).cstate
  | none => .invalid

/-- `getCacheState(address, true)`: the state of the block found by gated lookup. -/
def getFlexCacheState (addr : IntPtr) : CState :=
  match c.findFlex addr with
  | some i => ((c.setAt addr).blocks i).cstate
  | none => .invalid

end Cache

end Sniper
