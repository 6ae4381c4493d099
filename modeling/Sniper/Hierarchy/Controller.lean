import Sniper.Cache.Cache
import Sniper.Cache.Ways
import Sniper.Hierarchy.Protocol

/-!
# Cache controllers of the direct-DRAM hierarchy

Private first-level caches under one shared last-level cache that talks to DRAM
directly: the parts of `CacheCntlr` a memory operation runs through. All caches
are coherent and write-back, none is perfect or passthrough, prefetchers and
statistics are off, and time is not modelled. A failed assertion is recorded in
`failed` and execution goes on, so a run is a run of the program as long as
`failed` is empty.
-/

namespace Sniper

/-- The caches of the hierarchy. Equal block sizes are asserted when the memory
manager is built; an L2 whose set count has no modules cannot be used. -/
structure HierConfig where
  numL1 : Nat
  l1 : Fin numL1 → Geometry
  l2 : Geometry
  same_block : ∀ i, (l1 i).logBlocksize = l2.logBlocksize
  l2_modules : l2.HasModules

def HierConfig.geom (cfg : HierConfig) : Cntlr cfg.numL1 → Geometry
  | .l1 i => cfg.l1 i
  | .l2 => cfg.l2

def twoCores : HierConfig where
  numL1 := 2
  l1 := fun _ => ⟨6, 64, 8, .mask, by decide, by decide, by decide⟩
  l2 := ⟨6, 4096, 8, .mask, by decide, by decide, by decide⟩
  same_block := fun _ => rfl
  l2_modules := Or.inl rfl

def core0 : Fin twoCores.numL1 := ⟨0, by decide⟩

def core1 : Fin twoCores.numL1 := ⟨1, by decide⟩

inductive Assertion where
  /-- Tried to read from next-level cache, but data is already gone. -/
  | dataGone
  /-- Expected the address to be valid in L1. -/
  | notValidInL1
  /-- Writethrough expected a hit at next-level cache but got miss. -/
  | writebackMiss
  /-- Got writeback for non-MODIFIED line. -/
  | writebackNotModified
  /-- We already have this line, can't add it again. -/
  | alreadyHaveLine
  /-- Evicted address did not become invalid. -/
  | evictedStillValid
  | invalidateModified
  | invalidateAbsent
  /-- Expected block to be there but it wasn't. -/
  | blockMissing
  /-- State didn't change as we wanted. -/
  | stateUnchanged
  /-- Cannot change block status. -/
  | badStatus
  | nullBlock
  deriving DecidableEq, Repr

/-- Calls of `accessDRAM`. -/
inductive DramAccess where
  | read (addr : IntPtr)
  | write (addr : IntPtr)
  deriving DecidableEq, Repr

/-- `evicting` is `m_evicting_address` while `m_evicting_buf` is set. -/
structure Hier (cfg : HierConfig) where
  cache : (x : Cntlr cfg.numL1) → Cache (cfg.geom x)
  evicting : Option IntPtr
  dram : List DramAccess
  failed : List Assertion

namespace Hier

variable {cfg : HierConfig}

def new (cfg : HierConfig) : Hier cfg where
  cache := fun x => Cache.new (cfg.geom x)
  evicting := none
  dram := []
  failed := []

variable (h : Hier cfg)

def FirstOn : Prop := ∀ m, (h.cache .l2).isSubWayOn m 0 = true

variable (x : Cntlr cfg.numL1)

def setCache (c : Cache (cfg.geom x)) : Hier cfg :=
  { h with cache := Function.update h.cache x c }

def fail (a : Assertion) : Hier cfg := { h with failed := h.failed ++ [a] }

def check (holds : Bool) (a : Assertion) : Hier cfg :=
  if holds then h else h.fail a

def accessDRAM (access : DramAccess) : Hier cfg :=
  { h with dram := h.dram ++ [access] }

def getCacheState (addr : IntPtr) : CState :=
  (h.cache x).getCacheState addr

def operationPermissibleinCache (addr : IntPtr) (op : MemOp) : Bool :=
  op.permits (h.getCacheState x addr)

def blockAt (addr : IntPtr) (i : Fin (cfg.geom x).assoc) : CacheBlockInfo :=
  ((h.cache x).setAt addr).blocks i

/-- `cache_block_info->setCState` for a block of the set of `addr`. -/
def setCState (addr : IntPtr) (i : Fin (cfg.geom x).assoc) (st : CState) : Hier cfg :=
  h.setCache x ((h.cache x).setCState ((cfg.geom x).setIndex ((cfg.geom x).tagOf addr)) i st)

def setCacheState (addr : IntPtr) (st : CState) : Hier cfg :=
  match (h.cache x).find addr with
  | some i => h.setCState x addr i st
  | none => h.fail .nullBlock

def invalidateCacheBlock (addr : IntPtr) : Hier cfg :=
  let old := h.getCacheState x addr
  let h := h.check (old != .modified) .invalidateModified
  let h := h.check (old != .invalid) .invalidateAbsent
  h.setCache x ((h.cache x).invalidateSingleLine addr)

def retrieveCacheBlock (addr : IntPtr) (updateReplacement : Bool) : Hier cfg :=
  let access := (h.cache x).accessSingleLine addr updateReplacement
  (h.setCache x access.1).check access.2.isSome .blockMissing

/-- `writeCacheBlock` of the L2: into the evict buffer, or into a MODIFIED line. -/
def writeCacheBlock (addr : IntPtr) : Hier cfg :=
  if h.evicting = some addr then h
  else
    match (h.cache .l2).find addr with
    | none => h.fail .writebackMiss
    | some i => h.check ((h.blockAt .l2 addr i).cstate == .modified) .writebackNotModified

variable (i : Fin cfg.numL1)

/-- The part of `updateCacheBlock` that writes dirty data to the L2. -/
def cleanBlock (addr : IntPtr) (w : Fin (cfg.geom (.l1 i)).assoc) : Hier cfg :=
  if (h.blockAt (.l1 i) addr w).cstate = .modified then
    let h := h.retrieveCacheBlock (.l1 i) addr false
    let h := h.writeCacheBlock addr
    h.setCState (.l1 i) addr w .shared
  else h

/-- The switch of `updateCacheBlock` on the new state. -/
def changeState (addr : IntPtr) (w : Fin (cfg.geom (.l1 i)).assoc) (new : CState) : Hier cfg :=
  match new with
  | .invalid => h.invalidateCacheBlock (.l1 i) addr
  | .shared => h.setCState (.l1 i) addr w .shared
  | .modified => h.setCState (.l1 i) addr w .modified
  | _ => h.fail .badStatus

/-- `updateCacheBlock` of an L1, which has no previous level and is never given
a buffer here. -/
def updateCacheBlock (addr : IntPtr) (new : CState) : Hier cfg :=
  match (h.cache (.l1 i)).find addr with
  | none => h
  | some w =>
    let h := (h.cleanBlock i addr w).changeState i addr w new
    let now := h.getCacheState (.l1 i) addr
    let h := h.check (now == .invalid || now == new) .stateUnchanged
    let current := (h.blockAt (.l1 i) addr w).cstate
    h.check (current == .invalid || current == new) .stateUnchanged

/-- `updateCacheBlock` on every L1 of the list. -/
def updateAll (l1s : List (Fin cfg.numL1)) (addr : IntPtr) (new : CState) : Hier cfg :=
  l1s.foldl (fun h i => h.updateCacheBlock i addr new) h

def siblings (requester : Fin cfg.numL1) : List (Fin cfg.numL1) :=
  (List.finRange cfg.numL1).filter (· ≠ requester)

/-- What `insertCacheBlock` does with the block it evicted. An L1 writes dirty
data to the L2; the L2 first clears the line from all L1s, which write their
dirty data to its evict buffer, and then writes dirty data to DRAM. -/
def evictBlock (b : CacheBlockInfo) : Hier cfg :=
  let addr := (cfg.geom x).tagToAddress b.tag
  let h : Hier cfg :=
    match x with
    | .l1 _ => if b.cstate = .modified then h.writeCacheBlock addr else h
    | .l2 =>
      let h : Hier cfg := { h with evicting := some addr }
      let h := h.updateAll (List.finRange cfg.numL1) addr .invalid
      let h : Hier cfg := { h with evicting := none }
      if b.cstate = .modified then h.accessDRAM (.write addr) else h
  h.check (h.getCacheState x addr == .invalid) .evictedStillValid

/-- `insertCacheBlock`. The L2 checks for a duplicate through the gated lookup. -/
def insertCacheBlock (addr : IntPtr) (st : CState) : Hier cfg :=
  let isShared := x == .l2
  let present :=
    if isShared then (h.cache x).getFlexCacheState addr else h.getCacheState x addr
  let h := h.check (present == .invalid) .alreadyHaveLine
  let inserted := (h.cache x).insertSingleLine addr isShared
  let h := (h.setCache x inserted.1).setCacheState x addr st
  match inserted.2 with
  | none => h
  | some b => h.evictBlock x b

/-- `processShmemReqFromPrevCache` after a hit in the L2: the other L1s lose the
line on a write and are downgraded when a dirty line is read. -/
def serveHit (requester : Fin cfg.numL1) (op : MemOp) (addr : IntPtr)
    (block : Option (Fin (cfg.geom .l2).assoc)) : Hier cfg :=
  match block with
  | none => h.fail .nullBlock
  | some w =>
    if op ≠ .read then h.updateAll (siblings requester) addr .invalid
    else if (h.blockAt .l2 addr w).cstate = .modified then
      h.updateAll (siblings requester) addr .shared
    else if (h.blockAt .l2 addr w).cstate = .exclusive then
      h.updateAll (siblings requester) addr .shared
    else h

/-- `processShmemReqFromPrevCache` after a miss in the L2: an upgrade of a line
that is there, or a fill from DRAM. -/
def serveMiss (requester : Fin cfg.numL1) (op : MemOp) (addr : IntPtr)
    (block : Option (Fin (cfg.geom .l2).assoc)) : Hier cfg :=
  match block with
  | some w =>
    let h :=
      if (h.blockAt .l2 addr w).cstate = .shared then
        h.updateAll (siblings requester) addr .invalid
      else h
    let h :=
      if (h.blockAt .l2 addr w).cstate = .exclusive then
        h.updateAll (siblings requester) addr .invalid
      else h
    h.setCState .l2 addr w .modified
  | none =>
    let h := h.accessDRAM (.read addr)
    h.insertCacheBlock .l2 addr (if op = .read then .shared else .modified)

def flexState (addr : IntPtr) (block : Option (Fin (cfg.geom .l2).assoc)) : CState :=
  match block with
  | some w => (h.blockAt .l2 addr w).cstate
  | none => .invalid

/-- How the L2 looks a line up for a request: the hit is decided by the gated
lookup, which counts it, and the block pointer comes from the plain one. -/
def lookup (op : MemOp) (addr : IntPtr) : Hier cfg × Bool × Option (Fin (cfg.geom .l2).assoc) :=
  let peek := (h.cache .l2).peekSingleLine addr true true
  let h := h.setCache .l2 peek.1
  (h, op.permits (h.flexState addr peek.2), (h.cache .l2).find addr)

def serve (requester : Fin cfg.numL1) (op : MemOp) (addr : IntPtr)
    (cacheHit : Bool) (block : Option (Fin (cfg.geom .l2).assoc)) : Hier cfg :=
  if cacheHit then h.serveHit requester op addr block
  else h.serveMiss requester op addr block

/-- `processShmemReqFromPrevCache` of the L2. -/
def processShmemReqFromPrevCache (requester : Fin cfg.numL1) (op : MemOp)
    (addr : IntPtr) (count : Bool) : Hier cfg :=
  let (h, cacheHit, block) := h.lookup op addr
  let h := h.serve requester op addr cacheHit block
  h.retrieveCacheBlock .l2 addr (cacheHit && count)

/-- The end of `copyDataFromNextLevel`: the line goes into the L1 in the state in
which the L2 has it. -/
def fillFromNextLevel (addr : IntPtr) : Hier cfg :=
  let cstate := h.getCacheState .l2 addr
  match (h.cache (.l1 i)).find addr with
  | some _ => h.updateCacheBlock i addr cstate
  | none => h.insertCacheBlock (.l1 i) addr cstate

/-- `copyDataFromNextLevel` of an L1. -/
def copyDataFromNextLevel (op : MemOp) (addr : IntPtr) : Hier cfg :=
  let h := h.check (h.operationPermissibleinCache .l2 addr op) .dataGone
  let h := h.retrieveCacheBlock .l2 addr false
  h.fillFromNextLevel i addr

def dropStale (addr : IntPtr) : Hier cfg :=
  if h.getCacheState (.l1 i) addr ≠ .invalid then h.invalidateCacheBlock (.l1 i) addr else h

/-- `accessCache` of an L1, the end of every operation. -/
def accessCache (addr : IntPtr) (updateReplacement : Bool) : Hier cfg :=
  h.setCache (.l1 i) ((h.cache (.l1 i)).accessSingleLine addr updateReplacement).1

/-- `processMemOpFromCore` of an L1; `count` is false for operations that are
not modelled, which then leave the replacement order alone. -/
def processMemOpFromCore (op : MemOp) (addr : IntPtr) (count : Bool) : Hier cfg :=
  if h.operationPermissibleinCache (.l1 i) addr op then h.accessCache i addr count
  else
    let h := h.dropStale i addr
    let h := h.processShmemReqFromPrevCache i op addr count
    let h := h.copyDataFromNextLevel i op addr
    let h := h.check (h.operationPermissibleinCache (.l1 i) addr op) .notValidInL1
    h.accessCache i addr false

/-! ## Reconfiguration

`reconfigure` and `block_transfer`: module by module, ways are switched, and the sets of the module
are then cleared of the ways that went off. -/

/-- The body of the inner loop of `block_transfer`: a dirty block is taken out
and inserted again, any other block is dropped. -/
def transferWay (set : Nat) (h : Hier cfg) (v : Fin (cfg.geom .l2).assoc) : Hier cfg :=
  let b := ((h.cache .l2).sets set).blocks v
  let cleared := h.setCache .l2 ((h.cache .l2).put set v .empty)
  if b.cstate = .modified then
    cleared.insertCacheBlock .l2 ((cfg.geom .l2).tagToAddress b.tag) .modified
  else cleared

/-- One set of `block_transfer`; leader sets are skipped. -/
def transferSet (maxWay minWay : Nat) (h : Hier cfg) (set : Nat) : Hier cfg :=
  if ((h.cache .l2).sets set).isLeader then h
  else (wayRange _ maxWay minWay).foldl (transferWay set) h

/-- The sets of a module in the order `block_transfer` visits them. -/
def moduleSets (cfg : HierConfig) (x : Nat) : List Nat :=
  List.range' (x * (cfg.geom .l2).moduleSize) (cfg.geom .l2).moduleSize

def blockTransfer (x maxWay minWay : Nat) : Hier cfg :=
  (moduleSets cfg x).foldl (transferSet maxWay minWay) h

/-- The result of the switching loops for module `x` in the present state. -/
def switched (x : Nat) : Switched (cfg.geom .l2).assoc :=
  switchWays ((h.cache .l2).isSubWayOn x) ((h.cache .l2).l2Hits x)

def setSubWays (x : Nat) (on : Fin (cfg.geom .l2).assoc → Bool) : Hier cfg :=
  h.setCache .l2 { h.cache .l2 with isSubWayOn := Function.update (h.cache .l2).isSubWayOn x on }

/-- The body of the outer loop of `reconfigure`. -/
def reconfigureModule (h : Hier cfg) (x : Nat) : Hier cfg :=
  let r := h.switched x
  let h := h.setSubWays x r.on
  if r.didChangeHappen then h.blockTransfer x r.max r.min else h

def reconfigure (h : Hier cfg) : Hier cfg :=
  (List.range (cfg.geom .l2).numModules).foldl reconfigureModule h

end Hier

end Sniper
