import Sniper.Cache.Cache

/-!
# Where blocks may be, and what a cache says about a line

A cache is seen from outside as a map from lines to coherence states. This view is well behaved as
long as valid blocks sit in the set their tag selects and no set holds a tag twice; both facts, and
the view itself, are followed through `put`, to which every change of a block descriptor reduces.
-/

namespace Sniper

open CacheBlockInfo

namespace CacheSet

variable {A : Nat} {s : CacheSet A} {tag : IntPtr} {i : Fin A} {b : CacheBlockInfo}

lemma find_setBlock (hold : (s.blocks i).tag ≠ tag) (hnew : b.tag ≠ tag) :
    (s.setBlock i b).find tag = s.find tag := by
  refine Scan.down_congr fun j => ?_
  by_cases hj : j = i
  · subst hj
    simp [beq_eq_false_iff_ne.mpr hold, beq_eq_false_iff_ne.mpr hnew]
  · simp [hj]

lemma Unique.setBlock (unique : s.Unique)
    (fresh : b.isValid = true → ∀ j, j ≠ i → (s.blocks j).tag ≠ b.tag) :
    (s.setBlock i b).Unique := by
  intro j k valid same
  by_cases hj : j = i
  · by_cases hk : k = i
    · rw [hj, hk]
    · subst hj
      simp only [setBlock_self, setBlock_of_ne s b hk] at valid same
      exact absurd same.symm (fresh valid k hk)
  · rw [setBlock_of_ne s b hj] at valid same
    by_cases hk : k = i
    · subst hk
      rw [setBlock_self] at same
      have newValid : b.isValid = true := by
        rw [isValid_iff] at valid ⊢
        rwa [← same]
      exact absurd same (fresh newValid j hj)
    · rw [setBlock_of_ne s b hk] at same
      exact unique j k valid same

/-- What may be in set `n`: valid blocks that belong there, no tag twice, and no
state without a tag. -/
structure Homed (g : Geometry) (n : Nat) (s : CacheSet g.assoc) : Prop where
  home : ∀ i, (s.blocks i).isValid = true →
    g.setIndex (s.blocks i).tag = n ∧ g.IsLine (s.blocks i).tag
  unique : s.Unique
  blank : ∀ i, (s.blocks i).tag = noTag → (s.blocks i).cstate = .invalid

lemma Homed.congr {g : Geometry} {n : Nat} {s r : CacheSet g.assoc} (homed : r.Homed g n)
    (same : s.blocks = r.blocks) : s.Homed g n := by
  refine ⟨fun i => ?_, fun i j => ?_, fun i => ?_⟩
  · rw [same]; exact homed.home i
  · rw [same]; exact homed.unique i j
  · rw [same]; exact homed.blank i

/-- A descriptor that may be written to way `i`: it belongs to the set, and its
tag is in no other way. -/
structure Fits (g : Geometry) (n : Nat) (s : CacheSet g.assoc) (i : Fin g.assoc)
    (b : CacheBlockInfo) : Prop where
  home : b.isValid = true → g.setIndex b.tag = n ∧ g.IsLine b.tag
  fresh : b.isValid = true → ∀ j, j ≠ i → (s.blocks j).tag ≠ b.tag
  blank : b.tag = noTag → b.cstate = .invalid

lemma fits_empty (g : Geometry) (n : Nat) (s : CacheSet g.assoc) (i : Fin g.assoc) :
    s.Fits g n i .empty := by
  constructor <;> simp

lemma Homed.setBlock {g : Geometry} {n : Nat} {s : CacheSet g.assoc} {i : Fin g.assoc}
    (homed : s.Homed g n) (fits : s.Fits g n i b) : (s.setBlock i b).Homed g n := by
  refine ⟨fun j valid => ?_, homed.unique.setBlock fits.fresh, fun j empty => ?_⟩
  · by_cases hj : j = i
    · subst hj
      rw [setBlock_self] at valid ⊢
      exact fits.home valid
    · rw [setBlock_of_ne _ _ hj] at valid ⊢
      exact homed.home j valid
  · by_cases hj : j = i
    · subst hj
      rw [setBlock_self] at empty ⊢
      exact fits.blank empty
    · rw [setBlock_of_ne _ _ hj] at empty ⊢
      exact homed.blank j empty

end CacheSet

namespace Cache

variable {g : Geometry}

def Placed (c : Cache g) : Prop := ∀ s, (c.sets s).Homed g s

def Live (c : Cache g) : Prop :=
  ∀ s i, ((c.sets s).blocks i).cstate = .invalid ↔ ((c.sets s).blocks i).tag = noTag

def lineState (c : Cache g) (tag : IntPtr) : CState :=
  match (c.sets (g.setIndex tag)).find tag with
  | some i => ((c.sets (g.setIndex tag)).blocks i).cstate
  | none => .invalid

lemma getCacheState_eq (c : Cache g) (addr : IntPtr) :
    c.getCacheState addr = c.lineState (g.tagOf addr) := rfl

def SameBlocks (c d : Cache g) : Prop := ∀ s, (c.sets s).blocks = (d.sets s).blocks

variable {c d : Cache g} {s : Nat} {i : Fin g.assoc} {b : CacheBlockInfo} {tag : IntPtr}

open CacheSet

lemma SameBlocks.find (same : SameBlocks c d) (s : Nat) (tag : IntPtr) :
    (c.sets s).find tag = (d.sets s).find tag := by
  simp only [CacheSet.find, same s]

open Cache

lemma SameBlocks.lineState (same : SameBlocks c d) : c.lineState = d.lineState := by
  funext tag
  simp only [Cache.lineState, same.find, same (g.setIndex tag)]

lemma SameBlocks.placed (same : SameBlocks c d) (placed : d.Placed) : c.Placed :=
  fun s => (placed s).congr (same s)

lemma SameBlocks.live (same : SameBlocks c d) (live : d.Live) : c.Live := by
  intro s i
  rw [same s]
  exact live s i

@[simp] lemma put_sets_self (c : Cache g) (s : Nat) (i : Fin g.assoc) (b : CacheBlockInfo) :
    (c.put s i b).sets s = (c.sets s).setBlock i b := by simp [put, setSet]

@[simp] lemma put_sets_of_ne (c : Cache g) {s r : Nat} (i : Fin g.assoc)
    (b : CacheBlockInfo) (h : r ≠ s) : (c.put s i b).sets r = c.sets r := by
  simp [put, setSet, h]

@[simp] lemma put_isSubWayOn (c : Cache g) (s : Nat) (i : Fin g.assoc)
    (b : CacheBlockInfo) : (c.put s i b).isSubWayOn = c.isSubWayOn := rfl

@[simp] lemma put_l2Hits (c : Cache g) (s : Nat) (i : Fin g.assoc) (b : CacheBlockInfo) :
    (c.put s i b).l2Hits = c.l2Hits := rfl

lemma Placed.fits_state (placed : c.Placed) (valid : ((c.sets s).blocks i).isValid = true)
    (st : CState) : (c.sets s).Fits g s i { (c.sets s).blocks i with cstate := st } := by
  refine ⟨fun _ => (placed s).home i valid, fun _ j hj same => ?_, fun empty => ?_⟩
  · exact hj ((placed s).unique i j valid same.symm).symm
  · exact absurd empty ((isValid_iff _).mp valid)

lemma Placed.put (placed : c.Placed) (fits : (c.sets s).Fits g s i b) : (c.put s i b).Placed := by
  intro r
  by_cases hr : r = s
  · subst hr
    rw [put_sets_self]
    exact (placed r).setBlock fits
  · rw [put_sets_of_ne c i b hr]
    exact placed r

lemma Live.put (live : c.Live) (hb : b.cstate = .invalid ↔ b.tag = noTag) : (c.put s i b).Live := by
  intro r j
  by_cases hr : r = s
  · subst hr
    rw [put_sets_self]
    by_cases hj : j = i
    · subst hj
      rw [setBlock_self]
      exact hb
    · rw [setBlock_of_ne _ _ hj]
      exact live r j
  · rw [put_sets_of_ne c i b hr]
    exact live r j

lemma Placed.lineState_block (placed : c.Placed) (valid : ((c.sets s).blocks i).isValid = true) :
    c.lineState ((c.sets s).blocks i).tag = ((c.sets s).blocks i).cstate := by
  have home := ((placed s).home i valid).1
  have found := (placed s).unique.find_eq valid rfl
  simp only [lineState, home, found]

lemma lineState_absent (absent : ∀ i, ((c.sets (g.setIndex tag)).blocks i).tag ≠ tag) :
    c.lineState tag = .invalid := by
  simp only [lineState, find_eq_none.mpr absent]

lemma Live.lineState_noTag (live : c.Live) : c.lineState noTag = .invalid := by
  unfold lineState
  split
  · rename_i i found
    exact (live _ i).mpr (find_tag found)
  · rfl

lemma Live.exists_block (live : c.Live) (cached : c.lineState tag ≠ .invalid) :
    ∃ i, (c.sets (g.setIndex tag)).find tag = some i ∧
      (c.sets (g.setIndex tag)).blocks i = ⟨tag, c.lineState tag⟩ ∧
      ((c.sets (g.setIndex tag)).blocks i).isValid = true := by
  cases found : (c.sets (g.setIndex tag)).find tag with
  | none => exact absurd (by simp only [lineState, found]) cached
  | some i =>
    have htag := find_tag found
    have state : c.lineState tag = ((c.sets (g.setIndex tag)).blocks i).cstate := by
      simp only [lineState, found]
    refine ⟨i, rfl, ?_, ?_⟩
    · exact CacheBlockInfo.ext htag state.symm
    · rw [CacheBlockInfo.isValid_iff]
      intro empty
      exact cached (state.trans ((live _ i).mpr empty))

lemma Live.absent (live : c.Live) (hne : tag ≠ noTag) (uncached : c.lineState tag = .invalid)
    (placed : c.Placed) (i : Fin g.assoc) : ((c.sets (g.setIndex tag)).blocks i).tag ≠ tag := by
  intro htag
  have valid : ((c.sets (g.setIndex tag)).blocks i).isValid = true := by
    rw [isValid_iff, htag]
    exact hne
  have state := placed.lineState_block valid
  rw [htag, uncached] at state
  exact hne (htag.symm.trans ((live _ i).mp state.symm))

lemma lineState_put (placed : c.Placed) (live : c.Live) (fits : (c.sets s).Fits g s i b)
    (hb : b.cstate = .invalid ↔ b.tag = noTag) :
    (c.put s i b).lineState = fun u => if u = b.tag then b.cstate
      else if u = ((c.sets s).blocks i).tag then .invalid else c.lineState u := by
  funext u
  have placed' := placed.put fits
  have live' := live.put (s := s) (i := i) hb
  by_cases hu : u = noTag
  · subst hu
    rw [live'.lineState_noTag]
    split
    · rename_i h
      exact (hb.mpr h.symm).symm
    · split
      · rfl
      · exact live.lineState_noTag.symm
  by_cases hnew : u = b.tag
  · subst hnew
    rw [if_pos rfl]
    have valid : (((c.put s i b).sets s).blocks i).isValid = true := by simpa [isValid_iff] using hu
    simpa using placed'.lineState_block valid
  rw [if_neg hnew]
  by_cases hold : u = ((c.sets s).blocks i).tag
  · rw [if_pos hold]
    have valid : ((c.sets s).blocks i).isValid = true := by
      rw [isValid_iff, ← hold]
      exact hu
    have home := ((placed s).home i valid).1
    apply lineState_absent
    intro j
    rw [hold, home, put_sets_self]
    by_cases hj : j = i
    · subst hj
      rw [setBlock_self, ← hold]
      exact Ne.symm hnew
    · rw [setBlock_of_ne _ _ hj]
      intro same
      exact hj ((placed s).unique i j valid same.symm).symm
  · rw [if_neg hold]
    by_cases hs : g.setIndex u = s
    · have same := find_setBlock (s := c.sets s) (b := b) (Ne.symm hold) (Ne.symm hnew)
      unfold lineState
      rw [hs, put_sets_self, same]
      cases found : (c.sets s).find u with
      | none => rfl
      | some j =>
        have hj : j ≠ i := by
          rintro rfl
          exact hold (find_tag found).symm
        simp only [setBlock_of_ne _ _ hj]
    · simp only [lineState, put_sets_of_ne c i b hs]

lemma new_placed (g : Geometry) : (new g).Placed := by
  intro s
  constructor
  · intro i valid
    simp [new, CacheSet.new] at valid
  · intro i j valid
    simp [new, CacheSet.new] at valid
  · intro i _
    simp [new, CacheSet.new]

lemma new_live (g : Geometry) : (new g).Live := by
  intro s i
  simp [new, CacheSet.new]

lemma new_lineState (g : Geometry) (tag : IntPtr) : (new g).lineState tag = .invalid := by
  unfold lineState
  split <;> simp [new, CacheSet.new]

end Cache

end Sniper
