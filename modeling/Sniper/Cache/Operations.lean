import Sniper.Cache.Placement

/-!
# What the cache operations do to the line view

One specification for each operation of `Cache`: which descriptors it writes and
how the states of the lines change. Callers use these and do not unfold the
operations again.
-/

namespace Sniper.Cache

open CacheSet CacheBlockInfo

variable {g : Geometry} {c d : Cache g} {s : Nat} {i : Fin g.assoc} {b : CacheBlockInfo}
  {addr : IntPtr}

structure SameConfig (c d : Cache g) : Prop where
  ways : c.isSubWayOn = d.isSubWayOn
  leaders : ∀ s, (c.sets s).isLeader = (d.sets s).isLeader

lemma SameConfig.refl (c : Cache g) : SameConfig c c := ⟨rfl, fun _ => rfl⟩

lemma SameConfig.trans {e : Cache g} (h : SameConfig c d) (k : SameConfig d e) : SameConfig c e :=
  ⟨h.ways.trans k.ways, fun s => (h.leaders s).trans (k.leaders s)⟩

variable {set : CacheSet g.assoc}

lemma setSet_sameConfig (c : Cache g) {s : Nat}
    (leader : set.isLeader = (c.sets s).isLeader) : SameConfig (c.setSet s set) c := by
  refine ⟨rfl, fun r => ?_⟩
  by_cases hr : r = s
  · subst hr
    simpa [setSet] using leader
  · simp [setSet, hr]

variable (c)

lemma put_sameConfig (s : Nat) (i : Fin g.assoc) (b : CacheBlockInfo) :
    SameConfig (c.put s i b) c :=
  c.setSet_sameConfig rfl

lemma setSet_sameBlocks (c : Cache g) {s : Nat}
    (blocks : set.blocks = (c.sets s).blocks) : SameBlocks (c.setSet s set) c := by
  intro r
  by_cases hr : r = s
  · subst hr
    simpa [setSet] using blocks
  · simp [setSet, hr]

variable (addr)

lemma accessSingleLine_sameBlocks (update : Bool) :
    SameBlocks (c.accessSingleLine addr update).1 c := by
  unfold accessSingleLine
  split
  · exact fun _ => rfl
  · split
    · exact c.setSet_sameBlocks rfl
    · exact fun _ => rfl

lemma accessSingleLine_sameConfig (update : Bool) :
    SameConfig (c.accessSingleLine addr update).1 c := by
  unfold accessSingleLine
  split
  · exact SameConfig.refl c
  · split
    · exact c.setSet_sameConfig rfl
    · exact SameConfig.refl c

lemma accessSingleLine_way (update : Bool) : (c.accessSingleLine addr update).2 = c.find addr := by
  unfold accessSingleLine
  cases c.find addr with
  | none => rfl
  | some i => cases update <;> rfl

lemma insertSingleLine_rows (isShared : Bool) :
    (c.insertSingleLine addr isShared).1.isSubWayOn = c.isSubWayOn ∧
      (c.insertSingleLine addr isShared).1.l2Hits = c.l2Hits := by
  simp only [insertSingleLine]
  split <;> exact ⟨rfl, rfl⟩

lemma peekSingleLine_sets (isShared isFlexOp : Bool) :
    (c.peekSingleLine addr isShared isFlexOp).1.sets = c.sets := by
  unfold peekSingleLine
  split
  · split <;> rfl
  · split <;> rfl

lemma peekSingleLine_isSubWayOn (isShared isFlexOp : Bool) :
    (c.peekSingleLine addr isShared isFlexOp).1.isSubWayOn = c.isSubWayOn := by
  unfold peekSingleLine
  split
  · split <;> rfl
  · split <;> rfl

lemma peekSingleLine_sameBlocks (isShared isFlexOp : Bool) :
    SameBlocks (c.peekSingleLine addr isShared isFlexOp).1 c := by
  intro s
  rw [peekSingleLine_sets]

lemma peekSingleLine_sameConfig (isShared isFlexOp : Bool) :
    SameConfig (c.peekSingleLine addr isShared isFlexOp).1 c :=
  ⟨c.peekSingleLine_isSubWayOn addr isShared isFlexOp, fun s => by rw [peekSingleLine_sets]⟩

lemma peekSingleLine_flex : (c.peekSingleLine addr true true).2 = c.findFlex addr := by
  simp only [peekSingleLine, Bool.and_self, if_true]
  cases c.findFlex addr <;> rfl

variable {addr}

variable {c}

/-- What an operation leaves: a well-formed cache of the same configuration
that says `lines` about the lines. -/
structure Becomes (c' c : Cache g) (lines : IntPtr → CState) : Prop where
  placed : c'.Placed
  live : c'.Live
  config : SameConfig c' c
  lines : c'.lineState = lines

lemma Becomes.refl (placed : c.Placed) (live : c.Live) : Becomes c c c.lineState :=
  ⟨placed, live, SameConfig.refl c, rfl⟩

lemma find_isSome_iff (placed : c.Placed) (live : c.Live) (addr : IntPtr) :
    (c.find addr).isSome = true ↔ c.lineState (g.tagOf addr) ≠ .invalid := by
  constructor
  · intro found
    obtain ⟨i, hi⟩ := Option.isSome_iff_exists.mp found
    have htag := find_tag hi
    have valid : ((c.setAt addr).blocks i).isValid = true := by
      rw [isValid_iff, htag]
      exact g.tagOf_ne_noTag addr
    have state := placed.lineState_block valid
    intro gone
    rw [htag, gone] at state
    exact g.tagOf_ne_noTag addr (htag.symm.trans ((live _ i).mp state.symm))
  · intro cached
    obtain ⟨i, hi, -⟩ := live.exists_block cached
    exact Option.isSome_iff_exists.mpr ⟨i, hi⟩

lemma invalidateSingleLine_sameConfig (c : Cache g) (addr : IntPtr) :
    SameConfig (c.invalidateSingleLine addr) c := by
  apply setSet_sameConfig
  unfold invalidate
  split <;> rfl

lemma invalidateSingleLine_becomes (placed : c.Placed) (live : c.Live) (addr : IntPtr) :
    Becomes (c.invalidateSingleLine addr) c fun u =>
      if u = g.tagOf addr then .invalid else c.lineState u := by
  suffices (c.invalidateSingleLine addr).Placed ∧ (c.invalidateSingleLine addr).Live ∧
      (c.invalidateSingleLine addr).lineState = fun u =>
        if u = g.tagOf addr then .invalid else c.lineState u from
    ⟨this.1, this.2.1, c.invalidateSingleLine_sameConfig addr, this.2.2⟩
  unfold invalidateSingleLine invalidate
  cases found : (c.setAt addr).find (g.tagOf addr) with
  | none =>
    have same : SameBlocks (c.setSet (g.setIndex (g.tagOf addr)) (c.setAt addr)) c :=
      c.setSet_sameBlocks rfl
    refine ⟨same.placed placed, same.live live, ?_⟩
    rw [same.lineState]
    funext u
    split
    · rename_i hu
      rw [hu]
      exact lineState_absent (find_eq_none.mp found)
    · rfl
  | some i =>
    have fits := fits_empty g (g.setIndex (g.tagOf addr)) (c.setAt addr) i
    have hb : empty.cstate = .invalid ↔ empty.tag = noTag := by simp
    refine ⟨placed.put fits, live.put hb, ?_⟩
    refine (lineState_put placed live fits hb).trans ?_
    funext u
    rw [find_tag found]
    by_cases hu : u = noTag
    · have hne : noTag ≠ g.tagOf addr := (g.tagOf_ne_noTag addr).symm
      simp [hu, hne, live.lineState_noTag]
    · simp [hu]

variable {st : CState}

lemma setCState_becomes (placed : c.Placed) (live : c.Live) (found : c.find addr = some i)
    (hst : st ≠ .invalid) :
    Becomes (c.setCState (g.setIndex (g.tagOf addr)) i st) c fun u =>
      if u = g.tagOf addr then st else c.lineState u := by
  have htag : ((c.sets (g.setIndex (g.tagOf addr))).blocks i).tag = g.tagOf addr := find_tag found
  have valid : ((c.sets (g.setIndex (g.tagOf addr))).blocks i).isValid = true := by
    rw [isValid_iff, htag]
    exact g.tagOf_ne_noTag addr
  have fits := placed.fits_state valid st
  have hb : st = .invalid ↔ ((c.sets (g.setIndex (g.tagOf addr))).blocks i).tag = noTag := by
    rw [htag]
    exact ⟨fun h => absurd h hst, fun h => absurd h (g.tagOf_ne_noTag addr)⟩
  refine ⟨placed.put fits, live.put hb, put_sameConfig _ _ _ _, ?_⟩
  refine (lineState_put placed live fits hb).trans ?_
  funext u
  simp only [htag]
  by_cases hu : u = g.tagOf addr <;> simp [hu]

lemma find_setCState (c : Cache g) (s : Nat) (i : Fin g.assoc) (st : CState) (addr : IntPtr) :
    (c.setCState s i st).find addr = c.find addr := by
  refine Scan.down_congr fun j => ?_
  by_cases hs : g.setIndex (g.tagOf addr) = s
  · subst hs
    by_cases hj : j = i
    · subst hj; simp [setCState]
    · simp [setCState, hj]
  · simp [setCState, hs]

lemma insertSingleLine_spec (c : Cache g) (addr : IntPtr) (isShared : Bool) : ∃ w : Fin g.assoc,
      (isShared = true → (c.setAt addr).isLeader = false →
        c.mask (g.setIndex (g.tagOf addr)) 0 = true →
        c.mask (g.setIndex (g.tagOf addr)) w = true) ∧
      SameBlocks (c.insertSingleLine addr isShared).1
        (c.put (g.setIndex (g.tagOf addr)) w ⟨g.tagOf addr, .invalid⟩) ∧
      SameConfig (c.insertSingleLine addr isShared).1 c ∧
      (c.insertSingleLine addr isShared).2 =
        if ((c.setAt addr).blocks w).isValid then some ((c.setAt addr).blocks w) else none := by
  by_cases hgate : (isShared && !(c.setAt addr).isLeader) = true
  · refine ⟨(c.setAt addr).replacementWayFlex (c.mask (g.setIndex (g.tagOf addr))),
      fun _ _ first => CacheSet.replacementWayFlex_on first, ?_⟩
    have unfolded : c.insertSingleLine addr isShared =
        ({ c.setSet (g.setIndex (g.tagOf addr)) ((c.setAt addr).insertFlex
              ⟨g.tagOf addr, .invalid⟩ (c.mask (g.setIndex (g.tagOf addr)))).set with
            fills := c.fills ++ [⟨c.setAt addr, c.mask (g.setIndex (g.tagOf addr)),
              ((c.setAt addr).insertFlex ⟨g.tagOf addr, .invalid⟩
                (c.mask (g.setIndex (g.tagOf addr)))).way⟩] },
          ((c.setAt addr).insertFlex ⟨g.tagOf addr, .invalid⟩
            (c.mask (g.setIndex (g.tagOf addr)))).evicted) := if_pos hgate
    rw [unfolded]
    refine ⟨?_, ?_, rfl⟩
    · intro r
      by_cases hr : r = g.setIndex (g.tagOf addr)
      · subst hr
        simp [put, setSet, setAt, CacheSet.insertFlex, CacheSet.place, CacheSet.setBlock,
          CacheSet.getReplacementIndexFlex]
      · simp [put, setSet, hr]
    · have frame : SameConfig (c.setSet (g.setIndex (g.tagOf addr)) ((c.setAt addr).insertFlex
          ⟨g.tagOf addr, .invalid⟩ (c.mask (g.setIndex (g.tagOf addr)))).set) c :=
        c.setSet_sameConfig rfl
      exact ⟨frame.ways, frame.leaders⟩
  · refine ⟨(c.setAt addr).replacementWay, fun hs hl _ => absurd (by simp [hs, hl]) hgate, ?_⟩
    have unfolded : c.insertSingleLine addr isShared = (c.setSet (g.setIndex (g.tagOf addr))
            ((c.setAt addr).insert ⟨g.tagOf addr, .invalid⟩).set,
          ((c.setAt addr).insert ⟨g.tagOf addr, .invalid⟩).evicted) := if_neg hgate
    rw [unfolded]
    refine ⟨?_, ?_, rfl⟩
    · intro r
      by_cases hr : r = g.setIndex (g.tagOf addr)
      · subst hr
        simp [put, setSet, setAt, CacheSet.insert, CacheSet.place, CacheSet.setBlock,
          CacheSet.getReplacementIndex]
      · simp [put, setSet, hr]
    · exact c.setSet_sameConfig rfl

/-- Every valid block is in a leader set, in a way that is on, or in one of the
places in `pending`. -/
def Seen (c : Cache g) (pending : Nat → Fin g.assoc → Prop) : Prop :=
  ∀ s i, ((c.sets s).blocks i).isValid = true →
    (c.sets s).isLeader = true ∨ c.mask s i = true ∨ pending s i

variable {pending : Nat → Fin g.assoc → Prop}

lemma SameConfig.mask (same : SameConfig c d) : c.mask = d.mask := by
  funext s
  rw [Cache.mask, Cache.mask, same.ways]

lemma SameBlocks.seen (blocks : SameBlocks c d) (config : SameConfig c d)
    (seen : d.Seen pending) : c.Seen pending := by
  intro s i valid
  rw [blocks s] at valid
  rw [config.leaders, config.mask]
  exact seen s i valid

lemma Seen.put (seen : c.Seen pending) (s : Nat) (i : Fin g.assoc) (b : CacheBlockInfo)
    (place : b.isValid = true → (c.sets s).isLeader = true ∨ c.mask s i = true ∨ pending s i) :
    (c.put s i b).Seen pending := by
  have config := c.put_sameConfig s i b
  intro r j valid
  rw [config.leaders, config.mask]
  by_cases hr : r = s
  · subst hr
    rw [put_sets_self] at valid
    by_cases hj : j = i
    · subst hj
      rw [setBlock_self] at valid
      exact place valid
    · rw [setBlock_of_ne _ _ hj] at valid
      exact seen r j valid
  · rw [put_sets_of_ne c i b hr] at valid
    exact seen r j valid

lemma Seen.findFlex_eq (seen : c.Seen fun _ _ => False) (addr : IntPtr) :
    c.findFlex addr = c.find addr := by
  refine findFlex_eq_find (g.tagOf_ne_noTag addr) fun i valid => ?_
  rcases seen _ i valid with h | h | h
  · rw [h, Bool.true_or]
  · rw [h, Bool.or_true]
  · exact h.elim

lemma findFlex_absent (absent : ∀ i, ((c.setAt addr).blocks i).tag ≠ g.tagOf addr) :
    c.findFlex addr = none := by
  refine Scan.down_eq_none.mpr fun i => ?_
  simp [beq_eq_false_iff_ne.mpr (absent i)]

lemma insertSingleLine_setCState (placed : c.Placed) (addr : IntPtr) (isShared : Bool)
    (st : CState) (absent : ∀ i, ((c.setAt addr).blocks i).tag ≠ g.tagOf addr) :
    ∃ w : Fin g.assoc, (isShared = true → (c.setAt addr).isLeader = false →
        c.mask (g.setIndex (g.tagOf addr)) 0 = true →
        c.mask (g.setIndex (g.tagOf addr)) w = true) ∧
      (c.insertSingleLine addr isShared).1.find addr = some w ∧
      (c.setAt addr).Fits g (g.setIndex (g.tagOf addr)) w ⟨g.tagOf addr, st⟩ ∧
      SameBlocks ((c.insertSingleLine addr isShared).1.setCState (g.setIndex (g.tagOf addr)) w st)
        (c.put (g.setIndex (g.tagOf addr)) w ⟨g.tagOf addr, st⟩) ∧
      SameConfig ((c.insertSingleLine addr isShared).1.setCState (g.setIndex (g.tagOf addr)) w st)
        c ∧
      (c.insertSingleLine addr isShared).2 =
        if ((c.setAt addr).blocks w).isValid then some ((c.setAt addr).blocks w) else none := by
  obtain ⟨w, on, blocks, config, evicted⟩ := c.insertSingleLine_spec addr isShared
  have fits : ∀ st,
      (c.setAt addr).Fits g (g.setIndex (g.tagOf addr)) w ⟨g.tagOf addr, st⟩ := fun st =>
    ⟨fun _ => ⟨rfl, g.tagOf_isLine addr⟩, fun _ j _ => absent j,
      fun empty => absurd empty (g.tagOf_ne_noTag addr)⟩
  refine ⟨w, on, ?_, fits st, ?_, (put_sameConfig _ _ _ _).trans config, evicted⟩
  · rw [Cache.find, blocks.find]
    apply ((placed.put (fits .invalid)) _).unique.find_eq
    · simpa [isValid_iff] using g.tagOf_ne_noTag addr
    · simp
  · intro r
    have here := blocks r
    by_cases hr : r = g.setIndex (g.tagOf addr)
    · subst hr
      rw [put_sets_self] at here
      rw [Cache.setCState, put_sets_self, put_sets_self]
      simp [setBlock, here]
    · rw [Cache.setCState, put_sets_of_ne _ _ _ hr, here, put_sets_of_ne _ _ _ hr,
        put_sets_of_ne _ _ _ hr]

/-- A fill changes the states of the new line and of the one it evicts. -/
lemma insertSingleLine_becomes (placed : c.Placed) (live : c.Live) (addr : IntPtr)
    (isShared : Bool) (hst : st ≠ .invalid) (absent : c.lineState (g.tagOf addr) = .invalid) :
    ∃ w, (c.insertSingleLine addr isShared).1.find addr = some w ∧
      Becomes ((c.insertSingleLine addr isShared).1.setCState (g.setIndex (g.tagOf addr)) w st) c
        (fun u => if some u = (c.insertSingleLine addr isShared).2.map (·.tag) then .invalid
          else if u = g.tagOf addr then st else c.lineState u) ∧
      (∀ b, (c.insertSingleLine addr isShared).2 = some b →
        b.tag ≠ g.tagOf addr ∧ g.IsLine b.tag ∧ b.cstate = c.lineState b.tag ∧
          b.cstate ≠ .invalid) ∧
      (isShared = true → c.mask (g.setIndex (g.tagOf addr)) 0 = true → ∀ pending, c.Seen pending →
          ((c.insertSingleLine addr isShared).1.setCState
            (g.setIndex (g.tagOf addr)) w st).Seen pending) := by
  have nowhere := live.absent (g.tagOf_ne_noTag addr) absent placed
  obtain ⟨w, on, found, fits, blocks, config, evicted⟩ :=
    insertSingleLine_setCState placed addr isShared st nowhere
  have hb : st = .invalid ↔ g.tagOf addr = noTag :=
    ⟨fun h => absurd h hst, fun h => absurd h (g.tagOf_ne_noTag addr)⟩
  refine ⟨w, found, ⟨blocks.placed (placed.put fits), blocks.live (live.put hb), config, ?_⟩,
    ?_, ?_⟩
  · rw [blocks.lineState, lineState_put placed live fits hb, evicted]
    funext u
    by_cases hu : u = g.tagOf addr
    · subst hu
      have survives : some (g.tagOf addr) ≠ Option.map (·.tag)
          (if ((c.setAt addr).blocks w).isValid then some ((c.setAt addr).blocks w) else none) := by
        split
        · simpa using (nowhere w).symm
        · simp
      rw [if_pos rfl, if_neg survives, if_pos rfl]
    · by_cases valid : ((c.setAt addr).blocks w).isValid = true
      · simp [hu, valid]
      · have empty : ((c.setAt addr).blocks w).tag = noTag := by
          simpa [isValid_iff] using valid
        by_cases hn : u = noTag
        · simp [hn, valid, empty, live.lineState_noTag]
        · simp [hu, valid, empty, hn]
  · intro b hb
    rw [evicted] at hb
    split at hb
    · rename_i valid
      cases hb
      exact ⟨nowhere w, ((placed _).home w valid).2, (placed.lineState_block valid).symm,
        fun gone => (isValid_iff _).mp valid ((live _ w).mp gone)⟩
    · cases hb
  · intro gated first pending seen
    refine blocks.seen (config.trans ⟨rfl, fun r => ((c.put_sameConfig _ _ _).leaders r).symm⟩)
      (seen.put _ _ _ fun _ => ?_)
    cases leader : (c.setAt addr).isLeader with
    | true => exact .inl rfl
    | false => exact .inr (.inl (on gated leader first))

end Sniper.Cache
