import Sniper.Hierarchy.Coherence

/-!
# Requests and reconfigurations that overlap

A request to the shared cache holds the lock of its set from the lookup in the L2 to the fill of the
L1, but `Dyn_reconf::incrementCount` calls `reconfigure` under a lock of its own. Here a request is
taken apart into the steps it makes on the L2, and a reconfiguration, under any hit counts, may fall
between any two of them. It cannot when, outside the leader sets, no way that falls holds the line
or a dirty block of its set.
-/

namespace Sniper

open Runs

/-- The step a request takes next, with what it has read so far. -/
inductive Stage (cfg : HierConfig) where
  | idle
  | lookup (r : Request cfg.numL1)
  | serve (r : Request cfg.numL1) (cacheHit : Bool) (block : Option (Fin (cfg.geom .l2).assoc))
  | retrieve (r : Request cfg.numL1) (cacheHit : Bool)
  | permission (r : Request cfg.numL1)
  | copy (r : Request cfg.numL1)
  | fill (r : Request cfg.numL1)
  deriving DecidableEq

structure Busy (cfg : HierConfig) where
  hier : Hier cfg
  stage : Stage cfg

/-- Who moves: a core begins an operation, the request under way takes a step, or
another core reconfigures the L2 under the given hit counts. -/
inductive Turn (cfg : HierConfig) where
  | start (r : Request cfg.numL1)
  | advance
  | reconfigure (hits : Nat → Fin (cfg.geom .l2).assoc → Nat)

variable {cfg : HierConfig}

def Stage.served : Stage cfg → Option (Request cfg.numL1)
  | .idle => none
  | .lookup _ => none
  | .serve r _ _ => some r
  | .retrieve r _ => some r
  | .permission r => some r
  | .copy r => some r
  | .fill r => some r

namespace Hier

variable {h : Hier cfg}

/-- Outside the leader sets, a reconfiguration would switch off the way of the
line, or a way of its set with a dirty block, which may then replace the line. -/
def Endangers (h : Hier cfg) (addr : IntPtr) : Prop :=
  let s := cfg.l2.setIndex (cfg.l2.tagOf addr)
  ((h.cache .l2).setAt addr).isLeader = false ∧ ∃ w, (h.cache .l2).find addr = some w ∧
    ∃ v, Falls ((h.cache .l2).isSubWayOn (s / 512)) ((h.cache .l2).l2Hits (s / 512)) v ∧
      (v = w ∨ (((h.cache .l2).setAt addr).blocks v).cstate = .modified)

lemma withHits_view (h : Hier cfg) (hits : Nat → Fin (cfg.geom .l2).assoc → Nat) :
    (h.withHits hits).view = h.view := by
  rw [withHits, setCache_view]
  exact Function.update_eq_self Cntlr.l2 h.view

lemma withHits_find (h : Hier cfg) (hits : Nat → Fin (cfg.geom .l2).assoc → Nat)
    (addr : IntPtr) : ((h.withHits hits).cache .l2).find addr = (h.cache .l2).find addr := by
  rw [withHits, setCache_self]
  rfl

lemma Sound.reconfigure_find (sound : h.Sound) {addr : IntPtr} (safe : ¬ h.Endangers addr) :
    (h.reconfigure.cache .l2).find addr = (h.cache .l2).find addr ∧
      h.reconfigure.view .l2 (cfg.line addr) = h.view .l2 (cfg.line addr) := by
  have tidy := sound.reconfigure.1.tidy
  cases found : (h.cache .l2).find addr with
  | none =>
    have gone := view_of_find_eq_none found
    have gone' : h.reconfigure.view .l2 (cfg.line addr) = .invalid := by
      rcases sound.transfers.swept (cfg.line addr) with ⟨-, gone', -⟩ | ⟨-, same | ⟨here, -⟩⟩
      · exact gone'
      · exact (same .l2).trans gone
      · exact absurd gone here
    exact ⟨find_eq_none tidy gone', gone'.trans gone.symm⟩
  | some w =>
    have tag := CacheSet.find_tag found
    have valid : (((h.cache .l2).setAt addr).blocks w).isValid = true := by
      rw [CacheBlockInfo.isValid_iff, tag]
      exact Geometry.tagOf_ne_noTag _ addr
    have block := reconfigure_block (sound.tidy.placed .l2) sound.seen valid fun follower v falls =>
        ⟨fun same => safe ⟨follower, w, found, v, falls, .inl same⟩,
          fun dirty => safe ⟨follower, w, found, v, falls, .inr dirty⟩⟩
    have found' : (h.reconfigure.cache .l2).find addr = some w := by
      refine (tidy.placed .l2 _).unique.find_eq ?_ ?_
      · rw [block]; exact valid
      · rw [block]; exact tag
    refine ⟨found', ?_⟩
    rw [← blockAt_cstate found', ← blockAt_cstate found, blockAt, Cache.setAt, block]
    rfl

lemma Sound.reconfigure_l1 (sound : h.Sound) {i : Fin cfg.numL1} {t : IntPtr}
    (absent : h.view (.l1 i) t = .invalid) : h.reconfigure.view (.l1 i) t = .invalid :=
  sound.transfers.swept.weakens.absent absent

end Hier

namespace Busy

def start (cfg : HierConfig) : Busy cfg := ⟨Hier.new cfg, .idle⟩

def beginRequest (s : Busy cfg) (r : Request cfg.numL1) : Busy cfg :=
  if s.hier.operationPermissibleinCache (.l1 r.core) r.addr r.op then
    ⟨s.hier.accessCache r.core r.addr r.count, .idle⟩
  else ⟨s.hier.dropStale r.core r.addr, .lookup r⟩

def advance (s : Busy cfg) : Busy cfg :=
  match s.stage with
  | .idle => s
  | .lookup r =>
    let (h, cacheHit, block) := s.hier.lookup r.op r.addr
    ⟨h, .serve r cacheHit block⟩
  | .serve r cacheHit block =>
    ⟨s.hier.serve r.core r.op r.addr cacheHit block, .retrieve r cacheHit⟩
  | .retrieve r cacheHit =>
    ⟨s.hier.retrieveCacheBlock .l2 r.addr (cacheHit && r.count), .permission r⟩
  | .permission r =>
    ⟨s.hier.check (s.hier.operationPermissibleinCache .l2 r.addr r.op) .dataGone, .copy r⟩
  | .copy r => ⟨s.hier.retrieveCacheBlock .l2 r.addr false, .fill r⟩
  | .fill r =>
    let h := s.hier.fillFromNextLevel r.core r.addr
    let h := h.check (h.operationPermissibleinCache (.l1 r.core) r.addr r.op) .notValidInL1
    ⟨h.accessCache r.core r.addr false, .idle⟩

/-- One turn. The set lock and the SMT lock keep a core from beginning an
operation while a request is under way. -/
def turn (s : Busy cfg) : Turn cfg → Busy cfg
  | .start r => match s.stage with
    | .idle => s.beginRequest r
    | _ => s
  | .advance => s.advance
  | .reconfigure hits => ⟨(s.hier.withHits hits).reconfigure, s.stage⟩

def begun (r : Request cfg.numL1) (steps : Nat) : List (Turn cfg) :=
  .start r :: List.replicate steps .advance

/-- A request whose steps follow one another is the one of the sequential model. -/
theorem run_undisturbed (h : Hier cfg) (r : Request cfg.numL1) :
    run turn ⟨h, .idle⟩ (begun r 6) =
      ⟨h.processMemOpFromCore r.core r.op r.addr r.count, .idle⟩ := by
  simp only [begun, run_cons, turn, beginRequest, Hier.processMemOpFromCore]
  split <;> rfl

/-! ## The request keeps its line -/

def Relies (h : Hier cfg) : Stage cfg → Prop
  | .idle => True
  | .lookup r => h.view (.l1 r.core) (cfg.line r.addr) = .invalid
  | .serve r cacheHit block => h.view (.l1 r.core) (cfg.line r.addr) = .invalid ∧
      cacheHit = r.op.permits (h.view .l2 (cfg.line r.addr)) ∧
      block = (h.cache .l2).find r.addr
  | .retrieve r _ | .permission r | .copy r | .fill r =>
      h.view (.l1 r.core) (cfg.line r.addr) = .invalid ∧
      r.op.permits (h.view .l2 (cfg.line r.addr)) = true

structure Safe (s : Busy cfg) : Prop where
  sound : s.hier.Sound
  ok : s.hier.failed = []
  relies : Relies s.hier s.stage

variable {s : Busy cfg}

lemma safe_of_still {h h' : Hier cfg} (sound : h.Sound) (ok : h.failed = [])
    (moves : Hier.Moves h h' h.view) {stage : Stage cfg} (relies : Relies h' stage) :
    Safe ⟨h', stage⟩ :=
  ⟨sound.moves moves sound.msi sound.dirty, moves.failed.trans ok, relies⟩

open Hier Runs

lemma Safe.beginRequest (safe : s.Safe) (r : Request cfg.numL1) : (s.beginRequest r).Safe := by
  obtain ⟨sound, ok, -⟩ := safe
  cases hit : r.op.permits (s.hier.view (.l1 r.core) (cfg.line r.addr)) with
  | true =>
    have result : s.beginRequest r = ⟨s.hier.accessCache r.core r.addr r.count, .idle⟩ := by
      simp [Busy.beginRequest, operationPermissibleinCache, getCacheState_eq, hit]
    rw [result]
    exact safe_of_still sound ok (accessCache_moves sound.tidy _ _ _) trivial
  | false =>
    have result : s.beginRequest r = ⟨s.hier.dropStale r.core r.addr, .lookup r⟩ := by
      simp [Busy.beginRequest, operationPermissibleinCache, getCacheState_eq, hit]
    have dropped := dropStale_moves sound hit
    rw [result]
    refine ⟨sound.moves dropped (sound.msi.assign _ _ (by simp))
      (sound.dirty.assign_l1 r.core (cfg.line r.addr)), dropped.failed.trans ok, ?_⟩
    rw [Relies, dropped.view]
    simp [View.assign]

lemma Safe.advance (safe : s.Safe) : s.advance.Safe := by
  obtain ⟨h, stage⟩ := s
  have sound : h.Sound := safe.sound
  have ok : h.failed = [] := safe.ok
  have relies : Relies h stage := safe.relies
  cases stage with
  | idle => exact safe
  | lookup r =>
    obtain ⟨looked, hit, block⟩ := lookup_moves sound r.op r.addr
    exact safe_of_still sound ok looked ⟨looked.view ▸ relies, hit, block⟩
  | serve r cacheHit block =>
    obtain ⟨absent, rfl, rfl⟩ := relies
    obtain ⟨victim, hv, served⟩ := serve_moves sound r.core r.op r.addr
    refine ⟨sound.moves served (sound.msi.serve _ _ _ victim) (sound.dirty.serve _ _ _ victim),
      served.failed.trans ok, ?_⟩
    exact ⟨served.view ▸ (h.view.serve_weakens r.core r.op _ victim).absent absent,
      served.view ▸ View.serve_permits hv⟩
  | retrieve r cacheHit =>
    obtain ⟨absent, ready⟩ := relies
    have retrieved := retrieveCacheBlock_moves sound.tidy (MemOp.permits_ne_invalid ready)
      (cacheHit && r.count)
    exact safe_of_still sound ok retrieved ⟨retrieved.view ▸ absent, retrieved.view ▸ ready⟩
  | permission r =>
    have permitted : h.check (h.operationPermissibleinCache .l2 r.addr r.op) .dataGone = h := by
      rw [operationPermissibleinCache, getCacheState_eq, relies.2, check_true]
    simp only [Busy.advance, permitted]
    exact ⟨sound, ok, relies⟩
  | copy r =>
    obtain ⟨absent, ready⟩ := relies
    have retrieved :=
      retrieveCacheBlock_moves sound.tidy (MemOp.permits_ne_invalid ready) false
    exact safe_of_still sound ok retrieved ⟨retrieved.view ▸ absent, retrieved.view ▸ ready⟩
  | fill r =>
    obtain ⟨absent, ready⟩ := relies
    obtain ⟨victim, hv, filled⟩ := fillFromNextLevel_moves sound absent
      (MemOp.permits_ne_invalid ready)
    have survives : some (cfg.line r.addr) ≠ victim := Ne.symm hv
    have valid : r.op.permits ((h.fillFromNextLevel r.core r.addr).view (.l1 r.core)
        (cfg.line r.addr)) = true := by
      rw [filled.view]
      simpa [View.fillL1, survives] using ready
    have soundk := sound.moves filled (sound.msi.fillL1 _ _ victim) (sound.dirty.fillL1 _ _ victim)
    have accessed := accessCache_moves filled.tidy r.core r.addr false
    simp only [Busy.advance, operationPermissibleinCache, getCacheState_eq, valid, check_true]
    exact safe_of_still soundk (filled.failed.trans ok) accessed trivial

/-- The turn may happen: a reconfiguration does not endanger the line of a
request that has looked it up. -/
def Allows (s : Busy cfg) : Turn cfg → Prop
  | .reconfigure hits => ∀ r ∈ s.stage.served, ¬ (s.hier.withHits hits).Endangers r.addr
  | _ => True

variable {hits : Nat → Fin (cfg.geom .l2).assoc → Nat}

lemma Safe.reconfigure (safe : s.Safe) (allowed : s.Allows (.reconfigure hits)) :
    Safe ⟨(s.hier.withHits hits).reconfigure, s.stage⟩ := by
  obtain ⟨h, stage⟩ := s
  have sound := safe.sound.withHits hits
  have absent : ∀ {i t}, h.view (.l1 i) t = .invalid →
      (h.withHits hits).reconfigure.view (.l1 i) t = .invalid :=
    fun gone => sound.reconfigure_l1 (by rw [h.withHits_view]; exact gone)
  have kept : ∀ r ∈ stage.served,
      ((h.withHits hits).reconfigure.cache .l2).find r.addr = (h.cache .l2).find r.addr ∧
      (h.withHits hits).reconfigure.view .l2 (cfg.line r.addr) = h.view .l2 (cfg.line r.addr) := by
    intro r hr
    have stays := sound.reconfigure_find (allowed r hr)
    rw [h.withHits_find, h.withHits_view] at stays
    exact stays
  refine ⟨sound.reconfigure.1, sound.reconfigure.2.trans safe.ok, ?_⟩
  have relies := safe.relies
  cases stage with
  | idle => trivial
  | lookup r => exact absent relies
  | serve r cacheHit block =>
    obtain ⟨find, view⟩ := kept r rfl
    exact ⟨absent relies.1, by rw [view]; exact relies.2.1, by rw [find]; exact relies.2.2⟩
  | retrieve r | permission r | copy r | fill r =>
    exact ⟨absent relies.1, by rw [(kept r rfl).2]; exact relies.2⟩

variable {t : Turn cfg}

lemma Safe.turn (safe : s.Safe) (allowed : s.Allows t) : (s.turn t).Safe := by
  cases t with
  | start r =>
    simp only [Busy.turn]
    split
    · exact safe.beginRequest r
    · exact safe
  | advance => exact safe.advance
  | reconfigure hits => exact safe.reconfigure allowed

lemma start_safe (cfg : HierConfig) : (start cfg).Safe := ⟨new_sound cfg, rfl, trivial⟩

/-- Over every interleaving of requests and reconfigurations under any hit
counts, as long as no reconfiguration endangers the line of the request under
way, no assertion fires. -/
theorem interleaved_no_assertion (cfg : HierConfig) (ts : List (Turn cfg))
    (allowed : Guarded turn Allows (start cfg) ts) :
    Throughout turn (fun s => s.hier.failed = []) (start cfg) ts :=
  throughout_guarded (fun _ _ safe ok => safe.turn ok) (fun _ safe => safe.ok)
    (start_safe cfg) allowed

def grazed : List (Turn twoCores) :=
  [.start ⟨core0, .read, 0x40, true⟩, .advance, .advance, .reconfigure fun _ _ => 0,
    .advance, .advance, .advance, .advance]

theorem grazed_no_assertion :
    Guarded turn Allows (start twoCores) grazed ∧
      Throughout turn (fun s => s.hier.failed = []) (start twoCores) grazed := by
  have allowed : Guarded turn Allows (start twoCores) grazed := by
    refine ⟨trivial, trivial, trivial, fun r hr => ?_, trivial, trivial, trivial, trivial, trivial⟩
    obtain rfl : (⟨core0, .read, 0x40, true⟩ : Request twoCores.numL1) = r := by
      refine Option.some.inj (Eq.trans ?_ hr)
      decide +kernel
    rintro ⟨-, w, found, v, falls, same | dirty⟩
    · have first : some w = some 0 := found.symm.trans (by decide +kernel)
      have low := falls.2.1
      rw [same, Option.some.inj first] at low
      exact absurd low (by decide)
    · have clean : ∀ v, (((((run turn (start twoCores) (grazed.take 3)).hier.withHits
          fun _ _ => 0).cache .l2).setAt 0x40).blocks v).cstate ≠ .modified := by decide +kernel
      exact clean v dirty
  exact ⟨allowed, interleaved_no_assertion twoCores grazed allowed⟩

/-! ## The request loses its line -/

variable {r : Request cfg.numL1}

lemma dropped_fails (sound : s.hier.Sound)
    (doomed : cfg.line r.addr ∈ (s.hier.withHits hits).doomed) :
    (∀ cacheHit, s.stage = .retrieve r cacheHit →
      .blockMissing ∈ (run turn s [.reconfigure hits, .advance]).hier.failed) ∧
    (s.stage = .permission r →
      .dataGone ∈ (run turn s [.reconfigure hits, .advance]).hier.failed) := by
  have sound' := sound.withHits hits
  have gone : (s.hier.withHits hits).reconfigure.view .l2 (cfg.line r.addr) = .invalid := by
    rcases sound'.transfers.swept (cfg.line r.addr) with ⟨-, gone, -⟩ | ⟨kept, -⟩
    · exact gone
    · exact absurd doomed kept
  constructor
  · intro cacheHit stage
    have missing := find_eq_none sound'.reconfigure.1.tidy gone
    have way := Cache.accessSingleLine_way ((s.hier.withHits hits).reconfigure.cache .l2) r.addr
      (cacheHit && r.count)
    simp [turn, stage, advance, retrieveCacheBlock, way, missing, check, fail]
  · intro stage
    have refused : r.op.permits .invalid = false := by cases r.op <;> rfl
    simp [turn, stage, advance, operationPermissibleinCache, getCacheState_eq, gone,
      refused, check, fail]

lemma begun_allowed {steps : Nat} (ht : t ∈ begun r steps) (s : Busy cfg) : s.Allows t := by
  rcases List.mem_cons.mp ht with rfl | ht
  · trivial
  · rw [List.eq_of_mem_replicate ht]
    trivial

def rereads (steps : Nat) : List (Turn twoCores) :=
  Hier.threeReads.flatMap (begun · 6) ++ begun ⟨core1, .read, 0x80000, true⟩ steps

lemma rereads_safe (steps : Nat) : (run turn (start twoCores) (rereads steps)).Safe := by
  refine run_guarded (fun _ _ safe ok => safe.turn ok) (start_safe twoCores)
    (guarded_of_forall (fun t ht => ?_) _)
  rcases List.mem_append.mp ht with ht | ht
  · obtain ⟨r, -, ht⟩ := List.mem_flatMap.mp ht
    exact begun_allowed ht
  · exact begun_allowed ht

/-- A reconfiguration after the L2 has served the read, before its block is
retrieved or before the permission check, takes the line away. -/
theorem disturbed_reread_fails :
    .blockMissing ∈ (run turn (start twoCores)
      (rereads 2 ++ [.reconfigure fun _ _ => 0, .advance])).hier.failed ∧
    .dataGone ∈ (run turn (start twoCores)
      (rereads 3 ++ [.reconfigure fun _ _ => 0, .advance])).hier.failed := by
  rw [run_append, run_append]
  refine ⟨(dropped_fails (rereads_safe 2).sound (r := ⟨core1, .read, 0x80000, true⟩) ?_).1 true
    (by decide +kernel), (dropped_fails (rereads_safe 3).sound
      (r := ⟨core1, .read, 0x80000, true⟩) ?_).2 (by decide +kernel)⟩
  all_goals
    refine ⟨0, 2, by decide, by decide +kernel, ?_, by decide +kernel, by decide +kernel,
      by decide +kernel⟩
    refine ⟨?_, by decide, by decide +kernel, by decide +kernel⟩
    unfold Hot
    decide +kernel

end Busy

end Sniper
