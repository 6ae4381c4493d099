import Sniper.Hierarchy.Moves

/-!
# The controllers refine the protocol

A request to the L2 is the `serve` move of the protocol, and a memory operation
of a core is its memory operation, with the lines the two replacement policies
chose as victims.
-/

namespace Sniper.Hier

open View MemOp

variable {cfg : HierConfig} {h h' : Hier cfg} {i : Fin cfg.numL1} {addr : IntPtr}

/-! ## A request to the L2 -/

/-- What holds between operations: well-formed caches in which only INVALID,
SHARED and MODIFIED occur, no L1 with a dirty line that is not dirty in the L2,
and no block of the L2 out of sight of the gated lookup. -/
structure Sound (h : Hier cfg) : Prop where
  tidy : h.Tidy
  msi : h.view.Msi
  dirty : h.view.DirtyBelow
  first : h.FirstOn
  seen : (h.cache .l2).Seen fun _ _ => False
  idle : h.evicting = none

lemma Sound.moves (sound : h.Sound) {v : View cfg.numL1 IntPtr} (moves : Moves h h' v)
    (msi : v.Msi) (dirty : v.DirtyBelow) : h'.Sound where
  tidy := moves.tidy
  msi := moves.view ▸ msi
  dirty := moves.view ▸ dirty
  first := moves.firstOn sound.first
  seen := moves.seen sound.first _ sound.seen
  idle := moves.evicting.trans sound.idle

lemma accessDRAM_moves (tidy : h.Tidy) (access : DramAccess) :
    Moves h (h.accessDRAM access) h.view where
  tidy := ⟨tidy.placed, tidy.live⟩
  view := rfl
  config := fun _ => .refl _
  seen := fun _ _ seen => seen
  evicting := rfl
  failed := rfl
  dirty := ⟨[access], rfl, fun _ ht => Or.inl ht⟩

variable {w : Fin (cfg.geom .l2).assoc}

lemma setCState_modified_moves (tidy : h.Tidy) (found : (h.cache .l2).find addr = some w) :
    Moves h (h.setCState .l2 addr w .modified) (h.view.assign .l2 (cfg.line addr) .modified) where
  tidy :=
    have becomes := becomes_setCState tidy found (show CState.modified ≠ .invalid by simp)
    tidy.setCache becomes.placed becomes.live
  view := by
    have becomes := becomes_setCState tidy found (show CState.modified ≠ .invalid by simp)
    rw [setCState, setCache_view, becomes.lines]
    funext x u
    by_cases hx : x = .l2
    · subst hx; simp [assign]
    · simp [assign, hx]
  config := setCache_sameConfig (Cache.put_sameConfig _ _ _ _)
  seen := by
    intro _ pending seen
    rw [setCState, setCache_self]
    refine seen.put _ _ _ fun valid => ?_
    exact seen _ w valid
  evicting := rfl
  failed := rfl
  dirty := by
    have becomes := becomes_setCState tidy found (show CState.modified ≠ .invalid by simp)
    refine ⟨[], by simp [setCState], fun t ht => Or.inl ?_⟩
    rw [setCState, setCache_view, Function.update_self, becomes.lines]
    by_cases hu : t = cfg.line addr
    · simp [hu]
    · simpa [hu] using ht

variable {op : MemOp}

lemma serveHit_moves (sound : h.Sound) (found : (h.cache .l2).find addr = some w)
    (hit : op.permits (h.view .l2 (cfg.line addr)) = true) (victim : Option IntPtr) :
    Moves h (h.serveHit i op addr (some w)) (h.view.serve i op (cfg.line addr) victim) := by
  have snoop : ∀ {new : CState}, (new = .invalid ∨ new = .shared) →
      Moves h (h.updateAll (siblings i) addr new) (h.view.snoop i (cfg.line addr) new) := by
    intro new hnew
    exact (updateAll_snooped sound.tidy (siblings i) addr hnew
      (.inr fun j hj => sound.dirty j _ hj)).moves
  rw [View.serve, if_pos hit]
  simp only [serveHit, blockAt_cstate found]
  by_cases hop : op ≠ .read
  · rw [if_pos hop, if_pos hop]
    exact snoop (.inl rfl)
  · rw [if_neg hop, if_neg hop]
    by_cases hm : h.view .l2 (cfg.line addr) = .modified
    · rw [if_pos hm, if_pos hm]
      exact snoop (.inr rfl)
    · have notExclusive : h.view .l2 (cfg.line addr) ≠ .exclusive := by
        rcases sound.msi .l2 (cfg.line addr) with h | h | h <;> simp [h]
      rw [if_neg hm, if_neg hm, if_neg notExclusive]
      exact .refl sound.tidy

lemma serveMiss_moves (sound : h.Sound) (miss : op.permits (h.view .l2 (cfg.line addr)) = false) :
    ∃ victim, victim ≠ some (cfg.line addr) ∧
      Moves h (h.serveMiss i op addr ((h.cache .l2).find addr))
        (h.view.serve i op (cfg.line addr) victim) := by
  have notHit : ¬ op.permits (h.view .l2 (cfg.line addr)) = true := by simp [miss]
  by_cases absent : h.view .l2 (cfg.line addr) = .invalid
  · have read := accessDRAM_moves sound.tidy (.read addr)
    have state : (if op = .read then CState.shared else .modified) ≠ .invalid := by split <;> simp
    have absent' : (h.accessDRAM (.read addr)).view .l2 (cfg.line addr) = .invalid := absent
    obtain ⟨victim, hv, -, filled⟩ :=
      insertCacheBlock_l2 read.tidy (read.evicting.trans sound.idle) state absent'
    refine ⟨victim, hv, ?_⟩
    rw [View.serve, if_neg notHit, if_pos absent, find_eq_none sound.tidy absent]
    rw [read.view] at filled
    exact read.trans filled
  · obtain ⟨w, found⟩ := sound.tidy.find_isSome absent
    have clean : h.view .l2 (cfg.line addr) = .shared := by
      rcases sound.msi .l2 (cfg.line addr) with h | h | h
      · exact absurd h absent
      · exact h
      · rw [h, permits_modified] at miss
        cases miss
    have snooped := updateAll_snooped sound.tidy (siblings i) addr (.inl rfl)
      (.inr fun j hj => sound.dirty j _ hj)
    have found' : ((h.updateAll (siblings i) addr .invalid).cache .l2).find addr = some w := by
      rw [snooped.l2, found]
    have clean' : (h.updateAll (siblings i) addr .invalid).view .l2 (cfg.line addr) = .shared := by
      rw [view, snooped.l2]
      exact clean
    refine ⟨none, by simp, ?_⟩
    rw [View.serve, if_neg notHit, if_neg absent, found]
    simp only [serveMiss, blockAt_cstate found, clean, if_true, blockAt_cstate found', clean',
      reduceCtorEq, if_false]
    have upgraded := setCState_modified_moves snooped.moves.tidy found'
    rw [snooped.moves.view] at upgraded
    exact snooped.moves.trans upgraded

lemma flexState_find (h : Hier cfg) (addr : IntPtr) :
    h.flexState addr ((h.cache .l2).find addr) = h.view .l2 (cfg.line addr) := by
  cases found : (h.cache .l2).find addr with
  | none => rw [view_of_find_eq_none found]; rfl
  | some w => exact blockAt_cstate found

lemma lookup_moves (sound : h.Sound) (op : MemOp) (addr : IntPtr) :
    Moves h (h.lookup op addr).1 h.view ∧
      (h.lookup op addr).2.1 = op.permits ((h.lookup op addr).1.view .l2 (cfg.line addr)) ∧
      (h.lookup op addr).2.2 = ((h.lookup op addr).1.cache .l2).find addr := by
  have blocks := (h.cache .l2).peekSingleLine_sameBlocks addr true true
  have peeked := sound.tidy.moves_sameBlocks blocks
    ((h.cache .l2).peekSingleLine_sameConfig addr true true)
  have flex := ((h.cache .l2).peekSingleLine_flex addr).trans (sound.seen.findFlex_eq addr)
  have same :
      ((h.setCache .l2 ((h.cache .l2).peekSingleLine addr true true).1).cache .l2).find addr =
        (h.cache .l2).find addr := by
    rw [setCache_self]
    exact blocks.find _ _
  refine ⟨peeked, ?_, rfl⟩
  simp only [lookup]
  rw [flex, ← same, flexState_find]

lemma serve_moves (sound : h.Sound) (i : Fin cfg.numL1) (op : MemOp) (addr : IntPtr) :
    ∃ victim, victim ≠ some (cfg.line addr) ∧
      Moves h (h.serve i op addr (op.permits (h.view .l2 (cfg.line addr)))
        ((h.cache .l2).find addr)) (h.view.serve i op (cfg.line addr) victim) := by
  cases hit : op.permits (h.view .l2 (cfg.line addr)) with
  | true =>
    obtain ⟨w, found⟩ := sound.tidy.find_isSome (permits_ne_invalid hit)
    rw [found]
    exact ⟨none, by simp, serveHit_moves sound found hit none⟩
  | false => exact serveMiss_moves sound hit

lemma processShmemReqFromPrevCache_moves (sound : h.Sound) (i : Fin cfg.numL1) (op : MemOp)
    (addr : IntPtr) (count : Bool) :
    ∃ victim, victim ≠ some (cfg.line addr) ∧
      Moves h (h.processShmemReqFromPrevCache i op addr count)
        (h.view.serve i op (cfg.line addr) victim) := by
  obtain ⟨looked, hit, block⟩ := lookup_moves sound op addr
  have soundk := sound.moves looked sound.msi sound.dirty
  obtain ⟨victim, hv, served⟩ := serve_moves soundk i op addr
  rw [← hit, ← block, looked.view] at served
  refine ⟨victim, hv, looked.trans (served.trans ?_)⟩
  have present : h.view.serve i op (cfg.line addr) victim .l2 (cfg.line addr) ≠ .invalid :=
    permits_ne_invalid (serve_permits hv)
  rw [← served.view] at present ⊢
  exact retrieveCacheBlock_moves served.tidy present _

/-! ## An operation of a core -/

lemma fillFromNextLevel_moves (sound : h.Sound) {i : Fin cfg.numL1}
    (absent : h.view (.l1 i) (cfg.line addr) = .invalid)
    (present : h.view .l2 (cfg.line addr) ≠ .invalid) :
    ∃ victim, victim ≠ some (cfg.line addr) ∧
      Moves h (h.fillFromNextLevel i addr) (h.view.fillL1 i (cfg.line addr) victim) := by
  obtain ⟨victim, hv, filled⟩ := insertCacheBlock_l1 sound.tidy present absent sound.dirty
  refine ⟨victim, hv, ?_⟩
  have unfolded : h.fillFromNextLevel i addr =
      h.insertCacheBlock (.l1 i) addr (h.view .l2 (cfg.line addr)) := by
    simp only [fillFromNextLevel, getCacheState_eq, find_eq_none sound.tidy absent]
  have lines : h.view.fillL1 i (cfg.line addr) victim = Function.update h.view (.l1 i) fun u =>
        if some u = victim then .invalid
        else if u = cfg.line addr then h.view .l2 (cfg.line addr) else h.view (.l1 i) u := by
    funext x u
    by_cases hx : x = .l1 i
    · subst hx
      simp [fillL1]
    · simp [fillL1, hx]
  rw [unfolded, lines]
  exact filled

lemma copyDataFromNextLevel_moves (sound : h.Sound) {i : Fin cfg.numL1}
    (absent : h.view (.l1 i) (cfg.line addr) = .invalid)
    (ready : op.permits (h.view .l2 (cfg.line addr)) = true) :
    ∃ victim, victim ≠ some (cfg.line addr) ∧
      Moves h (h.copyDataFromNextLevel i op addr) (h.view.fillL1 i (cfg.line addr) victim) := by
  have present := permits_ne_invalid ready
  have retrieved := retrieveCacheBlock_moves sound.tidy present false
  have soundk := sound.moves retrieved sound.msi sound.dirty
  rw [← retrieved.view] at absent present
  obtain ⟨victim, hv, filled⟩ := fillFromNextLevel_moves soundk absent present
  rw [retrieved.view] at filled
  refine ⟨victim, hv, ?_⟩
  simp only [copyDataFromNextLevel, operationPermissibleinCache, getCacheState_eq, ready,
    check_true]
  exact retrieved.trans filled

lemma dropStale_moves (sound : h.Sound)
    (miss : op.permits (h.view (.l1 i) (cfg.line addr)) = false) :
    Moves h (h.dropStale i addr) (h.view.assign (.l1 i) (cfg.line addr) .invalid) := by
  rw [dropStale, getCacheState_eq]
  split
  · rename_i held
    have clean : h.view (.l1 i) (cfg.line addr) ≠ .modified := by
      intro dirty
      rw [dirty, permits_modified] at miss
      cases miss
    rw [invalidateCacheBlock_eq clean held]
    have moved := sound.tidy.moves_l1 (becomes_invalidate sound.tidy (.l1 i) addr)
    convert moved using 1
    funext x u
    by_cases hx : x = .l1 i
    · subst hx
      simp [assign]
    · simp [assign, hx]
  · rename_i gone
    convert Moves.refl sound.tidy using 1
    funext x u
    rw [assign]
    split
    · rename_i hx
      rw [hx.1, hx.2]
      exact (not_not.mp gone).symm
    · rfl

lemma accessCache_moves (tidy : h.Tidy) (i : Fin cfg.numL1) (addr : IntPtr) (update : Bool) :
    Moves h (h.accessCache i addr update) h.view :=
  tidy.moves_sameBlocks (Cache.accessSingleLine_sameBlocks _ addr update)
    (Cache.accessSingleLine_sameConfig _ addr update)

/-- An operation of the controllers is one of the protocol, for some victims. -/
lemma processMemOpFromCore_moves (sound : h.Sound) (i : Fin cfg.numL1) (op : MemOp)
    (addr : IntPtr) (count : Bool) :
    ∃ victim2 victim1, victim2 ≠ some (cfg.line addr) ∧ victim1 ≠ some (cfg.line addr) ∧
      Moves h (h.processMemOpFromCore i op addr count)
        (h.view.memOp i op (cfg.line addr) victim2 victim1) := by
  cases hit : op.permits (h.view (.l1 i) (cfg.line addr)) with
  | true =>
    refine ⟨none, none, by simp, by simp, ?_⟩
    simp only [processMemOpFromCore, operationPermissibleinCache, getCacheState_eq, hit, if_true]
    rw [memOp, if_pos hit]
    exact accessCache_moves sound.tidy i addr count
  | false =>
    have dropped := dropStale_moves sound hit
    have soundk := sound.moves dropped (sound.msi.assign _ _ (by simp))
      (sound.dirty.assign_l1 i (cfg.line addr))
    obtain ⟨victim2, hv2, served⟩ := processShmemReqFromPrevCache_moves soundk i op addr count
    have soundm := soundk.moves served (soundk.msi.serve i op _ victim2)
      (soundk.dirty.serve i op _ victim2)
    have ready : op.permits (((h.dropStale i addr).processShmemReqFromPrevCache i op addr
        count).view .l2 (cfg.line addr)) = true := by
      rw [served.view]
      exact serve_permits hv2
    have absent : ((h.dropStale i addr).processShmemReqFromPrevCache i op addr count).view
        (.l1 i) (cfg.line addr) = .invalid := by
      rw [served.view]
      refine ((h.dropStale i addr).view.serve_weakens i op _ victim2).absent ?_
      rw [dropped.view]
      simp [assign]
    obtain ⟨victim1, hv1, copied⟩ := copyDataFromNextLevel_moves soundm absent ready
    refine ⟨victim2, victim1, hv2, hv1, ?_⟩
    have valid : op.permits ((((h.dropStale i addr).processShmemReqFromPrevCache i op addr
        count).copyDataFromNextLevel i op addr).view (.l1 i) (cfg.line addr)) = true := by
      have survives : some (cfg.line addr) ≠ victim1 := Ne.symm hv1
      rw [copied.view]
      simpa [fillL1, survives] using ready
    have lines : h.view.memOp i op (cfg.line addr) victim2 victim1 =
        (((h.dropStale i addr).processShmemReqFromPrevCache i op addr
          count).copyDataFromNextLevel i op addr).view := by
      rw [memOp, if_neg (by simp [hit]), copied.view, served.view, dropped.view]
    have whole := dropped.trans (served.trans copied)
    rw [← copied.view] at whole
    simp only [processMemOpFromCore, operationPermissibleinCache, getCacheState_eq, hit,
      Bool.false_eq_true, if_false, valid, check_true, lines]
    exact whole.trans (accessCache_moves copied.tidy i addr false)

end Sniper.Hier
