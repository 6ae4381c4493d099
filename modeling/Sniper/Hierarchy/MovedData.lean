import Sniper.Cache.DataCache
import Sniper.Hierarchy.SharedRuns

/-!
# The data of the blocks that are moved

The reconfiguration once more, with the data arrays of the L2. `block_transfer` declares a buffer
`data_buf` and hands it to `insertCacheBlock` as the data of every dirty block that it takes out of
a way. Nothing is ever written to the buffer, the data of the block least of all, so that a block
that has been moved holds whatever the buffer held when the call began.
-/

namespace Sniper

open Hier CacheSet List

namespace DataSet

variable {A : Nat} [NeZero A] {D : Type*}

/-- Way `v` is emptied; a dirty block goes to the way the replacement chooses, and what it holds
there is the buffer. -/
def relocate (on : Fin A → Bool) (dataBuf : D) (s : DataSet A D) (v : Fin A) : DataSet A D where
  set := s.set.relocate on v
  data :=
    if (s.set.blocks v).cstate = .modified then
      Function.update s.data ((s.set.setBlock v .empty).replacementWayFlex on) dataBuf
    else s.data

def Pending (tag : IntPtr) (dataBuf : D) (vs : List (Fin A)) (s : DataSet A D) : Prop :=
  ∀ i, (s.set.blocks i).tag = tag → s.data i = dataBuf ∨ i ∈ vs

variable {on : Fin A → Bool} {dataBuf : D} {s : DataSet A D} {tag : IntPtr} {v : Fin A}
  {vs : List (Fin A)}

lemma Pending.relocate (pending : s.Pending tag dataBuf (v :: vs)) (line : tag ≠ noTag) :
    (s.relocate on dataBuf v).Pending tag dataBuf vs := by
  intro i htag
  have stays : ((s.set.setBlock v .empty).blocks i).tag = tag → s.data i = dataBuf ∨ i ∈ vs := by
    intro htag
    by_cases here : i = v
    · subst here
      rw [CacheSet.setBlock_self] at htag
      exact absurd htag.symm line
    · rw [CacheSet.setBlock_of_ne _ _ here] at htag
      exact (pending i htag).imp_right fun mem => (mem_cons.mp mem).resolve_left here
  by_cases dirty : (s.set.blocks v).cstate = .modified
  · by_cases filled : i = (s.set.setBlock v .empty).replacementWayFlex on
    · left
      simp [DataSet.relocate, dirty, filled]
    · simp only [DataSet.relocate, CacheSet.relocate, dirty, if_true,
        CacheSet.setBlock_of_ne _ _ filled, CacheSet.moveToMRUFlex_blocks] at htag ⊢
      rw [Function.update_of_ne filled]
      exact stays htag
  · simp only [DataSet.relocate, CacheSet.relocate, dirty, if_false] at htag ⊢
    exact stays htag

lemma Pending.foldl_relocate (pending : s.Pending tag dataBuf vs) (line : tag ≠ noTag) :
    (vs.foldl (DataSet.relocate on dataBuf) s).Pending tag dataBuf [] := by
  induction vs generalizing s with
  | nil => exact pending
  | cons v vs ih => exact ih (pending.relocate line)

end DataSet

/-- The way that `insertSingleLine` fills. -/
def Cache.fillWay {g : Geometry} (c : Cache g) (addr : IntPtr) (isShared : Bool) : Fin g.assoc :=
  let set := g.setIndex (g.tagOf addr)
  let block : CacheBlockInfo := ⟨g.tagOf addr, .invalid⟩
  if isShared && !(c.sets set).isLeader then ((c.sets set).insertFlex block (c.mask set)).way
  else ((c.sets set).insert block).way

lemma Cache.fillWay_flex {g : Geometry} (c : Cache g) (addr : IntPtr)
    (follower : (c.setAt addr).isLeader = false) :
    c.fillWay addr true =
      (c.setAt addr).replacementWayFlex (c.mask (g.setIndex (g.tagOf addr))) := by
  simp [fillWay, follower, insertFlex, place, getReplacementIndexFlex]

/-- The caches and the data arrays of the L2, one line of data for every way of every set. -/
structure Stored (cfg : HierConfig) (D : Type*) where
  hier : Hier cfg
  data : Nat → Fin (cfg.geom .l2).assoc → D

namespace Stored

variable {cfg : HierConfig} {D : Type*}

def dataSet (s : Stored cfg D) (set : Nat) : DataSet (cfg.geom .l2).assoc D :=
  ⟨(s.hier.cache .l2).sets set, s.data set⟩

/-- `insertCacheBlock` of the L2: the buffer is copied into the way that is filled. -/
def insertCacheBlock (s : Stored cfg D) (addr : IntPtr) (st : CState) (dataBuf : D) :
    Stored cfg D where
  hier := s.hier.insertCacheBlock .l2 addr st
  data :=
    let set := (cfg.geom .l2).setIndex ((cfg.geom .l2).tagOf addr)
    Function.update s.data set
      (Function.update (s.data set) ((s.hier.cache .l2).fillWay addr true) dataBuf)

/-- The body of the inner loop of `block_transfer`. Emptying a way leaves its data. -/
def transferWay (dataBuf : D) (set : Nat) (s : Stored cfg D) (v : Fin (cfg.geom .l2).assoc) :
    Stored cfg D :=
  let b := ((s.hier.cache .l2).sets set).blocks v
  let cleared := { s with hier := s.hier.setCache .l2 ((s.hier.cache .l2).put set v .empty) }
  if b.cstate = .modified then
    cleared.insertCacheBlock ((cfg.geom .l2).tagToAddress b.tag) .modified dataBuf
  else cleared

def transferSet (dataBuf : D) (maxWay minWay : Nat) (s : Stored cfg D) (set : Nat) : Stored cfg D :=
  if ((s.hier.cache .l2).sets set).isLeader then s
  else (wayRange _ maxWay minWay).foldl (transferWay dataBuf set) s

def blockTransfer (s : Stored cfg D) (dataBuf : D) (x maxWay minWay : Nat) : Stored cfg D :=
  (Hier.moduleSets cfg x).foldl (transferSet dataBuf maxWay minWay) s

def setSubWays (s : Stored cfg D) (x : Nat) (on : Fin (cfg.geom .l2).assoc → Bool) : Stored cfg D :=
  { s with hier := s.hier.setSubWays x on }

/-- The body of the outer loop of `reconfigure`. What the buffer of `block_transfer` holds when
module `x` is worked on is `dataBuf x`. -/
def reconfigureModule (dataBuf : Nat → D) (s : Stored cfg D) (x : Nat) : Stored cfg D :=
  let r := s.hier.switched x
  let s := s.setSubWays x r.on
  if r.didChangeHappen then s.blockTransfer (dataBuf x) x r.max r.min else s

def reconfigure (dataBuf : Nat → D) (s : Stored cfg D) : Stored cfg D :=
  (range (cfg.geom .l2).numModules).foldl (reconfigureModule dataBuf) s

/-! ## The caches are those of the model without data -/

lemma transferWay_hier (dataBuf : D) (set : Nat) (s : Stored cfg D) (v : Fin (cfg.geom .l2).assoc) :
    (s.transferWay dataBuf set v).hier = s.hier.transferWay set v := by
  unfold transferWay Hier.transferWay
  dsimp only
  split <;> rfl

lemma transferSet_hier (dataBuf : D) (maxWay minWay : Nat) (s : Stored cfg D) (set : Nat) :
    (s.transferSet dataBuf maxWay minWay set).hier = s.hier.transferSet maxWay minWay set := by
  unfold transferSet Hier.transferSet
  split
  · rfl
  · exact (foldl_hom hier fun s v => (transferWay_hier dataBuf set s v).symm).symm

lemma blockTransfer_hier (dataBuf : D) (s : Stored cfg D) (x maxWay minWay : Nat) :
    (s.blockTransfer dataBuf x maxWay minWay).hier = s.hier.blockTransfer x maxWay minWay :=
  (foldl_hom hier fun s set => (transferSet_hier dataBuf maxWay minWay s set).symm).symm

lemma reconfigureModule_hier (dataBuf : Nat → D) (s : Stored cfg D) (x : Nat) :
    (s.reconfigureModule dataBuf x).hier = s.hier.reconfigureModule x := by
  unfold reconfigureModule Hier.reconfigureModule
  dsimp only
  split
  · exact blockTransfer_hier _ _ _ _ _
  · rfl

lemma reconfigure_hier (dataBuf : Nat → D) (s : Stored cfg D) :
    (s.reconfigure dataBuf).hier = s.hier.reconfigure :=
  (foldl_hom hier fun s x => (reconfigureModule_hier dataBuf s x).symm).symm

/-! ## What happens to the data of one set -/

variable {s : Stored cfg D} {dataBuf : D} {set : Nat}

section

variable (placed : (s.hier.cache .l2).Placed)

include placed

open Cache

lemma transferWay_dataSet
    (follower : ((s.hier.cache .l2).sets set).isLeader = false) (v : Fin (cfg.geom .l2).assoc) :
    (s.transferWay dataBuf set v).dataSet = Function.update s.dataSet set
      ((s.dataSet set).relocate ((s.hier.cache .l2).mask set) dataBuf v) := by
  have cache := transferWay_l2 placed follower v
  rw [← transferWay_hier dataBuf] at cache
  have data : (s.transferWay dataBuf set v).data = Function.update s.data set
      ((s.dataSet set).relocate ((s.hier.cache .l2).mask set) dataBuf v).data := by
    by_cases dirty : (((s.hier.cache .l2).sets set).blocks v).cstate = .modified
    · obtain ⟨valid, -⟩ := (placed set).fresh dirty
      obtain ⟨home, isLine⟩ := (placed set).home v valid
      have htag : (cfg.geom .l2).tagOf ((cfg.geom .l2).tagToAddress
          (((s.hier.cache .l2).sets set).blocks v).tag) =
            (((s.hier.cache .l2).sets set).blocks v).tag := isLine
      have way := fillWay_flex ((s.hier.cache .l2).put set v .empty)
        ((cfg.geom .l2).tagToAddress (((s.hier.cache .l2).sets set).blocks v).tag)
        (by rw [setAt, htag, home, put_sets_self]; exact follower)
      rw [setAt, htag, home, put_sets_self] at way
      simp only [transferWay, insertCacheBlock, dirty, if_true, htag, home, setCache,
        Function.update_self, way, DataSet.relocate, dataSet]
      rfl
    · simp [transferWay, DataSet.relocate, dataSet, dirty]
  funext r
  by_cases here : r = set
  · subst here
    rw [Function.update_self, dataSet, cache, data, rewrite_sets_self, Function.update_self]
    rfl
  · rw [Function.update_of_ne here, dataSet, cache, data, Function.update_of_ne here]
    simp [rewrite, here, dataSet]

lemma foldl_transferWay_dataSet (follower : ((s.hier.cache .l2).sets set).isLeader = false)
    (vs : List (Fin (cfg.geom .l2).assoc)) :
    (vs.foldl (transferWay dataBuf set) s).dataSet = Function.update s.dataSet set
      (vs.foldl (DataSet.relocate ((s.hier.cache .l2).mask set) dataBuf) (s.dataSet set)) := by
  induction vs generalizing s with
  | nil => exact (Function.update_eq_self set s.dataSet).symm
  | cons v vs ih =>
    have cache := transferWay_l2 placed follower v
    have placed' := transferWay_placed placed follower v
    rw [← transferWay_hier dataBuf] at cache placed'
    rw [foldl_cons, ih placed' (by rw [cache, rewrite_sets_self]; simpa using follower),
      transferWay_dataSet placed follower, Function.update_self, Function.update_idem, cache,
      rewrite_mask]
    rfl

lemma transferSet_placed (maxWay minWay : Nat) :
    ((s.transferSet dataBuf maxWay minWay set).hier.cache .l2).Placed := by
  rw [transferSet_hier, Hier.transferSet]
  cases leader : ((s.hier.cache .l2).sets set).isLeader with
  | true => exact placed
  | false =>
    rw [if_neg Bool.false_ne_true, Hier.foldl_transferWay_l2 placed leader]
    intro r
    by_cases here : r = set
    · subst here
      rw [rewrite_sets_self]
      exact (placed r).sweep _ _
    · simpa [rewrite, here] using placed r

lemma transferSet_dataSet_of_ne (maxWay minWay : Nat) {r : Nat} (away : r ≠ set) :
    (s.transferSet dataBuf maxWay minWay set).dataSet r = s.dataSet r := by
  unfold transferSet
  cases leader : ((s.hier.cache .l2).sets set).isLeader with
  | true => rfl
  | false =>
    rw [if_neg Bool.false_ne_true, foldl_transferWay_dataSet placed leader,
      Function.update_of_ne away]

lemma blockTransfer_dataSet_of_ne (x maxWay minWay : Nat) {r : Nat} (away : r ∉ moduleSets cfg x) :
    (s.blockTransfer dataBuf x maxWay minWay).dataSet r = s.dataSet r := by
  have step : ∀ s : Stored cfg D, ∀ set ∈ moduleSets cfg x, (s.hier.cache .l2).Placed →
      ((s.transferSet dataBuf maxWay minWay set).hier.cache .l2).Placed ∧
        (s.transferSet dataBuf maxWay minWay set).dataSet r = s.dataSet r := by
    intro s set visited placed
    exact ⟨transferSet_placed placed _ _,
      transferSet_dataSet_of_ne placed _ _ fun same => away (same ▸ visited)⟩
  exact (Runs.run_view (I := fun s : Stored cfg D => (s.hier.cache .l2).Placed)
    (transferSet dataBuf maxWay minWay) (fun s => s.dataSet r) step placed).2

lemma blockTransfer_dataSet (dataBuf : D) {x : Nat}
    (maxWay minWay : Nat) (mem : set ∈ moduleSets cfg x)
    (follower : ((s.hier.cache .l2).sets set).isLeader = false) :
    ∃ on, (s.blockTransfer dataBuf x maxWay minWay).dataSet set =
      (wayRange _ maxWay minWay).foldl (DataSet.relocate on dataBuf) (s.dataSet set) := by
  obtain ⟨t, placed_t, same, last⟩ := Runs.run_visit
    (I := fun s : Stored cfg D => (s.hier.cache .l2).Placed)
    (transferSet dataBuf maxWay minWay) (fun s => s.dataSet set)
    (nodup_range' : (moduleSets cfg x).Nodup) mem
    (fun s r _ placed => transferSet_placed placed maxWay minWay)
    (fun s r _ away placed => transferSet_dataSet_of_ne placed maxWay minWay (Ne.symm away)) placed
  have follower_t : ((t.hier.cache .l2).sets set).isLeader = false := by
    rw [← follower]
    exact congrArg (fun d => d.set.isLeader) same
  refine ⟨(t.hier.cache .l2).mask set, last.trans ?_⟩
  rw [transferSet, if_neg (by simp [follower_t]), foldl_transferWay_dataSet placed_t follower_t,
    Function.update_self, same]

end

lemma setSubWays_dataSet (s : Stored cfg D) (x : Nat) (on : Fin (cfg.geom .l2).assoc → Bool) :
    (s.setSubWays x on).dataSet = s.dataSet := by
  funext r
  simp [dataSet, setSubWays, Hier.setSubWays, setCache]

lemma setSubWays_placed (placed : (s.hier.cache .l2).Placed) (x : Nat)
    (on : Fin (cfg.geom .l2).assoc → Bool) : ((s.setSubWays x on).hier.cache .l2).Placed := by
  intro r
  simpa [setSubWays, Hier.setSubWays, setCache] using placed r

lemma reconfigureModule_placed (placed : (s.hier.cache .l2).Placed) (dataBuf : Nat → D) {x : Nat}
    (inside : x < cfg.l2.numModules) : ((s.reconfigureModule dataBuf x).hier.cache .l2).Placed := by
  rw [reconfigureModule_hier]
  exact (reconfigureModule_l2 placed inside).placed (setSubWays_placed placed x _)

lemma reconfigureModule_of_ne (placed : (s.hier.cache .l2).Placed) (dataBuf : Nat → D) {x : Nat}
    (away : x ≠ set / 512) :
    (s.reconfigureModule dataBuf x).dataSet set = s.dataSet set ∧
      (s.reconfigureModule dataBuf x).hier.switched (set / 512) = s.hier.switched (set / 512) := by
  constructor
  · unfold reconfigureModule
    dsimp only
    split
    · rw [blockTransfer_dataSet_of_ne (setSubWays_placed placed x _), setSubWays_dataSet]
      exact fun mem => away (mem_moduleSets.mp mem).symm
    · rw [setSubWays_dataSet]
  · obtain ⟨ways, hits⟩ := s.hier.reconfigureModule_rows x
    rw [reconfigureModule_hier, switched, ways, hits, Function.update_of_ne (Ne.symm away),
      switched]

/-! ## Moved lines -/

/-- `reconfigure` takes a dirty block out of way `v` of this set and puts it in again. -/
structure Moves (s : Stored cfg D) (set : Nat) (v : Fin (cfg.geom .l2).assoc) : Prop where
  inside : set < cfg.l2.numSets
  follower : ((s.hier.cache .l2).sets set).isLeader = false
  dirty : (((s.hier.cache .l2).sets set).blocks v).cstate = .modified
  changed : (s.hier.switched (set / 512)).didChangeHappen = true
  visited : v ∈ wayRange _ (s.hier.switched (set / 512)).max (s.hier.switched (set / 512)).min

lemma Moves.holds_buffer {v i : Fin (cfg.geom .l2).assoc} (moves : s.Moves set v)
    (placed : (s.hier.cache .l2).Placed) (dataBuf : Nat → D)
    (resident : ((((s.reconfigure dataBuf).hier.cache .l2).sets set).blocks i).tag =
      (((s.hier.cache .l2).sets set).blocks v).tag) :
    (s.reconfigure dataBuf).data set i = dataBuf (set / 512) := by
  obtain ⟨t, placed_t, same, last⟩ := Runs.run_visit
    (I := fun s : Stored cfg D => (s.hier.cache .l2).Placed) (reconfigureModule dataBuf)
    (fun s => (s.dataSet set, s.hier.switched (set / 512))) nodup_range
    (mem_range.mpr (div_lt_numModules.mpr moves.inside))
    (fun s x mem placed => reconfigureModule_placed placed dataBuf (mem_range.mp mem))
    (fun s x _ away placed => Prod.ext_iff.mpr (reconfigureModule_of_ne placed dataBuf away)) placed
  obtain ⟨before, decided⟩ := Prod.ext_iff.mp same
  have after : (s.reconfigure dataBuf).dataSet set =
      (t.reconfigureModule dataBuf (set / 512)).dataSet set := congrArg Prod.fst last
  dsimp only at before decided
  -- the module of the set is worked on in state t, which has the set as it was
  rw [reconfigureModule, decided, if_pos moves.changed] at after
  have start := setSubWays_dataSet t (set / 512) (s.hier.switched (set / 512)).on
  have follower : (((t.setSubWays (set / 512) (s.hier.switched (set / 512)).on).hier.cache .l2).sets
      set).isLeader = false := by
    rw [← moves.follower]
    exact congrArg (fun d => d.set.isLeader) ((congrFun start set).trans before)
  obtain ⟨on, swept⟩ := blockTransfer_dataSet (setSubWays_placed placed_t _ _)
    (dataBuf (set / 512)) (s.hier.switched (set / 512)).max (s.hier.switched (set / 512)).min
    (mem_moduleSets.mpr rfl) follower
  rw [swept, start, before] at after
  obtain ⟨valid, -⟩ := (placed set).fresh moves.dirty
  have pending : (s.dataSet set).Pending (((s.hier.cache .l2).sets set).blocks v).tag
      (dataBuf (set / 512)) (wayRange _ (s.hier.switched (set / 512)).max
        (s.hier.switched (set / 512)).min) := by
    intro j htag
    exact .inr ((placed set).unique v j valid htag.symm ▸ moves.visited)
  have done : ((s.reconfigure dataBuf).dataSet set).Pending
      (((s.hier.cache .l2).sets set).blocks v).tag (dataBuf (set / 512)) [] := by
    rw [after]
    exact pending.foldl_relocate ((CacheBlockInfo.isValid_iff _).mp valid)
  exact (done i resident).resolve_right not_mem_nil

lemma resident_of {h : Hier cfg} {data : Nat → Fin (cfg.geom .l2).assoc → D} {dataBuf : Nat → D}
    {v i : Fin (cfg.geom .l2).assoc}
    (resident : (((h.reconfigure.cache .l2).sets set).blocks i).tag =
      (((h.cache .l2).sets set).blocks v).tag) :
    ((((reconfigure dataBuf ⟨h, data⟩).hier.cache .l2).sets set).blocks i).tag =
      ((((⟨h, data⟩ : Stored cfg D).hier.cache .l2).sets set).blocks v).tag := by
  rw [reconfigure_hier]
  exact resident

/-- A dirty line that `reconfigure` moves and that is still there afterwards keeps its data if
and only if the buffer of `block_transfer` happens to hold them. -/
theorem moved_keeps_data_iff (s : Stored cfg D) (placed : (s.hier.cache .l2).Placed)
    (dataBuf : Nat → D) {set : Nat} {v i : Fin (cfg.geom .l2).assoc} (moves : s.Moves set v)
    (resident : ((((s.reconfigure dataBuf).hier.cache .l2).sets set).blocks i).tag =
      (((s.hier.cache .l2).sets set).blocks v).tag) :
    (s.reconfigure dataBuf).data set i = s.data set v ↔ dataBuf (set / 512) = s.data set v := by
  rw [moves.holds_buffer placed dataBuf resident]

def threeLines : List L2Event :=
  [.fill 0x40 .shared, .fill 0x40040 .shared, .fill 0x80040 .modified]

def threeFilled : Hier twoCores := Runs.run Hier.l2Step (Hier.new twoCores) threeLines

lemma threeFilled_placed : (threeFilled.cache .l2).Placed := by
  have allowed : Runs.Guarded l2Step Hier.Allows (new twoCores) threeLines := by decide +kernel
  exact (run_orderly twoCores allowed).placed

lemma threeFilled_moves (data : Nat → Fin (twoCores.geom .l2).assoc → Nat) :
    Moves ⟨threeFilled, data⟩ 1 2 := by
  have follower : ((threeFilled.cache .l2).sets 1).isLeader = false := by decide +kernel
  have dirty : (((threeFilled.cache .l2).sets 1).blocks 2).cstate = .modified := by decide +kernel
  have changed : (threeFilled.switched (1 / 512)).didChangeHappen = true := by decide +kernel
  have visited : 2 ∈ wayRange (twoCores.geom .l2).assoc (threeFilled.switched (1 / 512)).max
      (threeFilled.switched (1 / 512)).min := by
    decide +kernel
  exact ⟨by decide, follower, dirty, changed, visited⟩

lemma threeFilled_resident : (((threeFilled.reconfigure.cache .l2).sets 1).blocks 0).tag =
      (((threeFilled.cache .l2).sets 1).blocks 2).tag := by
  rw [(reconfigure_sameButFills threeFilled_placed).sets]
  decide +kernel

/-- The line keeps its data if the buffer is filled with just these. -/
theorem moved_keeps_data_by_chance :
    (reconfigure (fun _ => 7) (⟨threeFilled, fun _ _ => 7⟩ : Stored twoCores Nat)).data 1 0 = 7 :=
  (moved_keeps_data_iff ⟨threeFilled, fun _ _ => 7⟩ threeFilled_placed (fun _ => 7)
    (threeFilled_moves _) (resident_of threeFilled_resident)).mpr rfl

/-- The dirty line is moved from way 2 to way 0, and its data are lost. -/
theorem moved_loses_data : let s : Stored twoCores Nat := ⟨threeFilled, fun _ _ => 7⟩
    s.Moves 1 2 ∧ ((((s.reconfigure fun _ => 0).hier.cache .l2).sets 1).blocks 0).tag =
      (((s.hier.cache .l2).sets 1).blocks 2).tag ∧
      (s.reconfigure fun _ => 0).data 1 0 = 0 ∧ s.data 1 2 = 7 := by
  have moves := threeFilled_moves fun _ _ => 7
  have resident := @resident_of twoCores Nat 1 threeFilled (fun _ _ => 7) (fun _ => 0) 2 0
    threeFilled_resident
  exact ⟨moves, resident, moves.holds_buffer threeFilled_placed (fun _ => 0) resident, rfl⟩

end Stored

end Sniper
