import Sniper.Cache.Block
import Sniper.Lib.Runs

/-!
# The coherence protocol on lines

What the two-level hierarchy is for, without sets, ways and replacement: each
controller holds each line in some state, a memory operation moves a line to
the L1 that asked for it, and lines may be evicted on the way. Which line is
evicted is left open. Reconfiguration of the L2 is a sequence of moves that
drop a line or take it out and fill it in again.
-/

namespace Sniper

open MemOp CState

inductive Cntlr (n : Nat) where
  | l1 (i : Fin n)
  | l2
  deriving DecidableEq

abbrev View (n : Nat) (L : Type*) := Cntlr n → L → CState

namespace View

variable {n : Nat} {L : Type*}

section Moves

variable [DecidableEq L]

variable (v : View n L)

def assign (x : Cntlr n) (t : L) (st : CState) : View n L := fun y u =>
  if y = x ∧ u = t then st else v y u

/-- The L1s other than `i` that hold the line move to the state `new`. -/
def snoop (i : Fin n) (t : L) (new : CState) : View n L
  | .l1 j, u => if j ≠ i ∧ u = t ∧ v (.l1 j) t ≠ .invalid then new else v (.l1 j) u
  | .l2, u => v .l2 u

def fillL2 (t : L) (st : CState) (victim : Option L) : View n L := fun y u =>
  if some u = victim then .invalid else if y = .l2 ∧ u = t then st else v y u

def fillL1 (i : Fin n) (t : L) (victim : Option L) : View n L := fun y u =>
  if y = .l1 i ∧ some u = victim then .invalid
  else if y = .l1 i ∧ u = t then v .l2 t
  else v y u

/-- The L2 serves a request of L1 `i`. -/
def serve (i : Fin n) (op : MemOp) (t : L) (victim : Option L) : View n L :=
  if op.permits (v .l2 t) then
    if op ≠ .read then v.snoop i t .invalid
    else if v .l2 t = .modified then v.snoop i t .shared
    else v
  else if v .l2 t = .invalid then v.fillL2 t (if op = .read then .shared else .modified) victim
  else (v.snoop i t .invalid).assign .l2 t .modified

/-- A memory operation on L1 `i`. The victims matter only where a fill evicts. -/
def memOp (i : Fin n) (op : MemOp) (t : L) (victim2 victim1 : Option L) : View n L :=
  if op.permits (v (.l1 i) t) then v
  else ((v.assign (.l1 i) t .invalid).serve i op t victim2).fillL1 i t victim1

end Moves

def Msi (v : View n L) : Prop :=
  ∀ x t, v x t = .invalid ∨ v x t = .shared ∨ v x t = .modified

def DirtyBelow (v : View n L) : Prop :=
  ∀ i t, v (.l1 i) t = .modified → v .l2 t = .modified

def Inclusive (v : View n L) : Prop :=
  ∀ i t, v (.l1 i) t ≠ .invalid → v .l2 t ≠ .invalid

def SingleWriter (v : View n L) : Prop :=
  ∀ i j t, j ≠ i → (v (.l1 i) t).writable = true → (v (.l1 j) t).readable = false

/-- Lines in `dropped` leave the L2 while the L1s keep them; any other line stays
as it is, or leaves all caches at once. -/
def Sweeps (dropped : Set L) (v v' : View n L) : Prop := ∀ t,
  (t ∈ dropped ∧ v' .l2 t = .invalid ∧ ∀ i, v' (.l1 i) t = v (.l1 i) t) ∨
  (t ∉ dropped ∧ ((∀ x, v' x t = v x t) ∨ (v .l2 t ≠ .invalid ∧ ∀ x, v' x t = .invalid)))

/-- The one kind of request that breaks `SingleWriter`: a read that misses in its
L1 and finds the line dirty in the L2 while some other L1 holds it. -/
def SharesDirty (v : View n L) (i : Fin n) (op : MemOp) (t : L) : Prop :=
  op = .read ∧ (v (.l1 i) t).readable = false ∧ v .l2 t = .modified ∧
    ∃ j, j ≠ i ∧ v (.l1 j) t ≠ .invalid

lemma writable_iff {s : CState} : s.writable = true ↔ s = .modified := by
  cases s <;> simp [writable]

section Lines

variable {v v' v'' : View n L} {t : L} {dropped dropped' : Set L}

lemma Msi.readable_eq_false (msi : v.Msi) {x : Cntlr n} :
    (v x t).readable = false ↔ v x t = .invalid := by
  rcases msi x t with h | h | h <;> simp [h, readable]

/-- The L1s of `v'` hold no line they did not hold in `v`, and write no line
they could not write. -/
def Weakens (v' v : View n L) : Prop := ∀ i t,
  v' (.l1 i) t = v (.l1 i) t ∨ v' (.l1 i) t = .invalid ∨
    (v' (.l1 i) t = .shared ∧ v (.l1 i) t ≠ .invalid)

lemma Weakens.refl (v : View n L) : v.Weakens v := fun _ _ => Or.inl rfl

lemma Weakens.held (weak : v'.Weakens v) {i : Fin n} (held : v' (.l1 i) t ≠ .invalid) :
    v (.l1 i) t ≠ .invalid := by
  rcases weak i t with h | h | ⟨_, h⟩
  · exact h ▸ held
  · exact absurd h held
  · exact h

lemma Weakens.absent (weak : v'.Weakens v) {i : Fin n} (absent : v (.l1 i) t = .invalid) :
    v' (.l1 i) t = .invalid :=
  not_not.mp fun held => weak.held held absent

lemma Weakens.dirty (weak : v'.Weakens v) {i : Fin n} (dirty : v' (.l1 i) t = .modified) :
    v (.l1 i) t = .modified := by
  rcases weak i t with h | h | ⟨h, _⟩
  · exact h ▸ dirty
  · rw [h] at dirty; cases dirty
  · rw [h] at dirty; cases dirty

lemma SingleWriter.weaken (single : v.SingleWriter) (msi : v.Msi) (weak : v'.Weakens v) :
    v'.SingleWriter := by
  intro i j t hj writes
  have writer := writable_iff.mpr (weak.dirty (writable_iff.mp writes))
  have other := msi.readable_eq_false.mp (single i j t hj writer)
  rcases weak j t with h | h | ⟨_, h⟩
  · rw [h, other]; rfl
  · rw [h]; rfl
  · exact absurd other h

/-! ## Sweeps -/

lemma Sweeps.refl (v : View n L) : Sweeps ∅ v v := fun _ => Or.inr ⟨by simp, Or.inl fun _ => rfl⟩

lemma Sweeps.trans (first : Sweeps dropped v v') (second : Sweeps dropped' v' v'')
    (present : ∀ t ∈ dropped', v' .l2 t ≠ .invalid) : Sweeps (dropped ∪ dropped') v v'' := by
  intro t
  rcases first t with ⟨hd, gone, kept⟩ | ⟨hd, stays⟩
  · -- a line dropped first has left the L2, so the second sweep cannot touch it
    refine .inl ⟨.inl hd, ?_⟩
    rcases second t with ⟨hd', -⟩ | ⟨-, same | ⟨here, -⟩⟩
    · exact absurd gone (present t hd')
    · exact ⟨(same .l2).trans gone, fun i => (same (.l1 i)).trans (kept i)⟩
    · exact absurd gone here
  · rcases second t with ⟨hd', gone, kept⟩ | ⟨hd', stays'⟩
    · refine .inl ⟨.inr hd', gone, fun i => (kept i).trans ?_⟩
      rcases stays with same | ⟨-, evicted⟩
      · exact same (.l1 i)
      · exact absurd (evicted .l2) (present t hd')
    · refine .inr ⟨fun h => h.elim hd hd', ?_⟩
      rcases stays with same | ⟨here, evicted⟩
      · rcases stays' with same' | ⟨here', evicted'⟩
        · exact .inl fun x => (same' x).trans (same x)
        · exact .inr ⟨same .l2 ▸ here', evicted'⟩
      · rcases stays' with same' | ⟨here', -⟩
        · exact .inr ⟨here, fun x => (same' x).trans (evicted x)⟩
        · exact absurd (evicted .l2) here'

section

variable (swept : Sweeps dropped v v')

include swept

lemma Sweeps.weakens : v'.Weakens v := by
  intro i t
  rcases swept t with ⟨-, -, kept⟩ | ⟨-, same | ⟨-, evicted⟩⟩
  · exact .inl (kept i)
  · exact .inl (same (.l1 i))
  · exact .inr (.inl (evicted (.l1 i)))

lemma Sweeps.msi (msi : v.Msi) : v'.Msi := by
  intro x t
  rcases swept t with ⟨-, gone, kept⟩ | ⟨-, same | ⟨-, evicted⟩⟩
  · cases x with
    | l1 i => rw [kept i]; exact msi (.l1 i) t
    | l2 => exact .inl gone
  · rw [same x]; exact msi x t
  · exact .inl (evicted x)

lemma Sweeps.dirtyBelow
    (clean : ∀ t ∈ dropped, v .l2 t ≠ .modified) (dirty : v.DirtyBelow) : v'.DirtyBelow := by
  intro i t hi
  rcases swept t with ⟨hd, -, kept⟩ | ⟨-, same | ⟨-, evicted⟩⟩
  · exact absurd (dirty i t (kept i ▸ hi)) (clean t hd)
  · rw [same .l2]
    exact dirty i t (same (.l1 i) ▸ hi)
  · rw [evicted (.l1 i)] at hi
    cases hi

lemma Sweeps.not_inclusive (hd : t ∈ dropped) {i : Fin n}
    (held : v (.l1 i) t ≠ .invalid) : ¬ v'.Inclusive := by
  intro after
  rcases swept t with ⟨-, gone, kept⟩ | ⟨hd', -⟩
  · exact after i t (by rw [kept i]; exact held) gone
  · exact hd' hd

lemma Sweeps.inclusive_iff (inclusive : v.Inclusive) :
    v'.Inclusive ↔ ∀ t ∈ dropped, ∀ i, v (.l1 i) t = .invalid := by
  constructor
  · intro after t hd i
    by_contra held
    exact swept.not_inclusive hd held after
  · intro free i t held
    rcases swept t with ⟨hd, -, kept⟩ | ⟨-, same | ⟨-, evicted⟩⟩
    · exact absurd ((kept i).trans (free t hd i)) held
    · rw [same .l2]
      exact inclusive i t (same (.l1 i) ▸ held)
    · exact absurd (evicted (.l1 i)) held

end

end Lines

section Operations

variable [DecidableEq L] {v : View n L} {i : Fin n} {op : MemOp} {t : L} {victim : Option L}

/-! ## What the moves do to the L1s -/

variable (v)

lemma assign_weakens (i : Fin n) (t : L) : (v.assign (.l1 i) t .invalid).Weakens v := by
  intro j u
  by_cases h : (Cntlr.l1 j : Cntlr n) = .l1 i ∧ u = t
  · exact .inr (.inl (if_pos h))
  · exact .inl (if_neg h)

variable {new : CState}

lemma snoop_weakens (v : View n L) (i : Fin n) (t : L)
    (hnew : new = .invalid ∨ new = .shared) : (v.snoop i t new).Weakens v := by
  intro j u
  by_cases h : j ≠ i ∧ u = t ∧ v (.l1 j) t ≠ .invalid
  · have after : v.snoop i t new (.l1 j) u = new := if_pos h
    rw [after]
    rcases hnew with rfl | rfl
    · exact .inr (.inl rfl)
    · exact .inr (.inr ⟨rfl, h.2.1 ▸ h.2.2⟩)
  · exact .inl (if_neg h)

variable {j : Fin n}

lemma snoop_invalid (v : View n L) {i : Fin n} (hj : j ≠ i) (t : L) :
    v.snoop i t .invalid (.l1 j) t = .invalid := by
  by_cases held : v (.l1 j) t ≠ .invalid
  · exact if_pos ⟨hj, rfl, held⟩
  · rw [snoop, if_neg fun h => held h.2.2]
    exact not_not.mp held

@[simp] lemma snoop_l2 (i : Fin n) (t u : L) (new : CState) : v.snoop i t new .l2 u = v .l2 u := rfl

@[simp] lemma assign_l1 (j : Fin n) (t u : L) (st : CState) :
    v.assign .l2 t st (.l1 j) u = v (.l1 j) u := by simp [assign]

@[simp] lemma assign_l1_l2 (i : Fin n) (t u : L) (st : CState) :
    v.assign (.l1 i) t st .l2 u = v .l2 u := by simp [assign]

lemma fillL2_l1 (j : Fin n) (t u : L) (st : CState) (victim : Option L) :
    v.fillL2 t st victim (.l1 j) u = if some u = victim then .invalid else v (.l1 j) u := by
  simp [fillL2]

lemma serve_weakens (i : Fin n) (op : MemOp) (t : L) (victim : Option L) :
    (v.serve i op t victim).Weakens v := by
  unfold serve
  split
  · split
    · exact v.snoop_weakens i t (.inl rfl)
    · split
      · exact v.snoop_weakens i t (.inr rfl)
      · exact Weakens.refl v
  · split
    · intro j u
      rw [fillL2_l1]
      split
      · exact .inr (.inl rfl)
      · exact .inl rfl
    · intro j u
      rw [assign_l1]
      exact v.snoop_weakens i t (.inl rfl) j u

variable {v}

lemma serve_permits (hv : victim ≠ some t) : op.permits (v.serve i op t victim .l2 t) = true := by
  unfold serve
  split
  · rename_i hit
    split
    · exact hit
    · split <;> exact hit
  · split
    · have survives : some t ≠ victim := Ne.symm hv
      by_cases hop : op = .read
      · simp [fillL2, survives, hop, permits, readable]
      · simp [fillL2, survives, hop, permits_modified]
    · simp [assign, permits_modified]

/-! ## The states in use -/

variable {st : CState}

open View

lemma Msi.assign (msi : v.Msi) (x : Cntlr n) (t : L)
    (hst : st = .invalid ∨ st = .shared ∨ st = .modified) : (v.assign x t st).Msi := by
  intro y u
  unfold View.assign
  split
  · exact hst
  · exact msi y u

lemma Msi.snoop (msi : v.Msi) (i : Fin n) (t : L)
    (hnew : new = .invalid ∨ new = .shared ∨ new = .modified) : (v.snoop i t new).Msi := by
  intro y u
  cases y with
  | l2 => exact msi .l2 u
  | l1 j =>
    rw [View.snoop]
    split
    · exact hnew
    · exact msi (.l1 j) u

lemma Msi.fillL2 (msi : v.Msi) (t : L) (victim : Option L)
    (hst : st = .invalid ∨ st = .shared ∨ st = .modified) : (v.fillL2 t st victim).Msi := by
  intro y u
  unfold View.fillL2
  split
  · exact .inl rfl
  · split
    · exact hst
    · exact msi y u

lemma Msi.fillL1 (msi : v.Msi) (i : Fin n) (t : L) (victim : Option L) :
    (v.fillL1 i t victim).Msi := by
  intro y u
  unfold View.fillL1
  split
  · exact .inl rfl
  · split
    · exact msi .l2 t
    · exact msi y u

lemma Msi.serve (msi : v.Msi) (i : Fin n) (op : MemOp) (t : L) (victim : Option L) :
    (v.serve i op t victim).Msi := by
  unfold View.serve
  split
  · split
    · exact msi.snoop i t (by simp)
    · split
      · exact msi.snoop i t (by simp)
      · exact msi
  · split
    · exact msi.fillL2 t victim (by split <;> simp)
    · exact (msi.snoop i t (by simp)).assign .l2 t (by simp)

lemma Msi.memOp (msi : v.Msi) (i : Fin n) (op : MemOp) (t : L) (victim2 victim1 : Option L) :
    (v.memOp i op t victim2 victim1).Msi := by
  unfold View.memOp
  split
  · exact msi
  · exact ((msi.assign (.l1 i) t (by simp)).serve i op t victim2).fillL1 i t victim1

/-! ## Dirty lines -/

lemma DirtyBelow.assign_l1 (dirty : v.DirtyBelow) (i : Fin n) (t : L) :
    (v.assign (.l1 i) t .invalid).DirtyBelow := by
  intro j u hj
  rw [assign_l1_l2]
  exact dirty j u ((v.assign_weakens i t).dirty hj)

/-- A line that an L1 still holds stays in the L2, as it was or modified. -/
lemma serve_l2 {u : L} (below : v .l2 u ≠ .invalid)
    (held : v.serve i op t victim (.l1 j) u ≠ .invalid) :
    v.serve i op t victim .l2 u = v .l2 u ∨ v.serve i op t victim .l2 u = .modified := by
  unfold serve at held ⊢
  split
  · split
    · exact .inl rfl
    · split <;> exact .inl rfl
  · rename_i miss
    rw [if_neg miss] at held
    split
    · rename_i absent
      rw [if_pos absent, fillL2_l1] at held
      have hvic : some u ≠ victim := by
        intro h
        rw [if_pos h] at held
        exact held rfl
      have hut : u ≠ t := by
        rintro rfl
        exact below absent
      exact .inl (by simp [fillL2, hvic, hut])
    · by_cases hut : u = t
      · exact .inr (by simp [assign, hut])
      · exact .inl (by simp [assign, hut])

lemma DirtyBelow.serve (dirty : v.DirtyBelow) (i : Fin n) (op : MemOp) (t : L)
    (victim : Option L) : (v.serve i op t victim).DirtyBelow := by
  intro j u hj
  have below : v .l2 u = .modified := dirty j u ((v.serve_weakens i op t victim).dirty hj)
  have held : v.serve i op t victim (.l1 j) u ≠ .invalid := by simp [hj]
  rcases serve_l2 (by simp [below]) held with same | modified
  · exact same.trans below
  · exact modified

lemma DirtyBelow.fillL1 (dirty : v.DirtyBelow) (i : Fin n) (t : L) (victim : Option L) :
    (v.fillL1 i t victim).DirtyBelow := by
  intro j u hj
  unfold View.fillL1 at hj ⊢
  simp only [reduceCtorEq, false_and, if_false]
  split at hj
  · cases hj
  · split at hj
    · rename_i h
      rw [h.2]
      exact hj
    · exact dirty j u hj

lemma DirtyBelow.memOp (dirty : v.DirtyBelow) (i : Fin n) (op : MemOp) (t : L)
    (victim2 victim1 : Option L) : (v.memOp i op t victim2 victim1).DirtyBelow := by
  unfold View.memOp
  split
  · exact dirty
  · exact ((dirty.assign_l1 i t).serve i op t victim2).fillL1 i t victim1

/-! ## Inclusion -/

section

variable (inclusive : v.Inclusive)

include inclusive

lemma Inclusive.assign_l1 (i : Fin n) (t : L) : (v.assign (.l1 i) t .invalid).Inclusive := by
  intro j u held
  rw [assign_l1_l2]
  exact inclusive j u ((v.assign_weakens i t).held held)

lemma Inclusive.serve (i : Fin n) (op : MemOp) (t : L)
    (victim : Option L) : (v.serve i op t victim).Inclusive := by
  intro j u held
  have below : v .l2 u ≠ .invalid := inclusive j u ((v.serve_weakens i op t victim).held held)
  rcases serve_l2 below held with same | modified
  · rwa [same]
  · simp [modified]

lemma Inclusive.fillL1 (present : v .l2 t ≠ .invalid) (i : Fin n)
    (victim : Option L) : (v.fillL1 i t victim).Inclusive := by
  intro j u held
  unfold View.fillL1 at held ⊢
  simp only [reduceCtorEq, false_and, if_false]
  by_cases hut : u = t
  · rw [hut]
    exact present
  · split at held
    · exact absurd rfl held
    · rw [if_neg fun h => hut h.2] at held
      exact inclusive j u held

lemma Inclusive.memOp (i : Fin n) (op : MemOp) {t : L}
    {victim2 : Option L} (hv : victim2 ≠ some t) (victim1 : Option L) :
    (v.memOp i op t victim2 victim1).Inclusive := by
  unfold View.memOp
  split
  · exact inclusive
  · exact ((inclusive.assign_l1 i t).serve i op t victim2).fillL1
      (permits_ne_invalid (serve_permits hv)) i victim1

end

/-! ## One writer -/

lemma serve_alone (inclusive : v.Inclusive)
    (apart : op = .read → v .l2 t = .modified → ∀ j, j ≠ i → v (.l1 j) t = .invalid)
    (dirty : v.serve i op t victim .l2 t = .modified) (hj : j ≠ i) :
    v.serve i op t victim (.l1 j) t = .invalid := by
  unfold serve at dirty ⊢
  split
  · rename_i hit
    rw [if_pos hit] at dirty
    split
    · exact v.snoop_invalid hj t
    · rename_i hop
      rw [if_neg hop] at dirty
      have reads : op = .read := not_not.mp hop
      split
      · rename_i hm
        have alone := apart reads hm j hj
        rw [snoop, if_neg fun h => h.2.2 alone]
        exact alone
      · rename_i clean
        rw [if_neg clean] at dirty
        exact absurd dirty clean
  · split
    · rename_i absent
      have alone : v (.l1 j) t = .invalid := by
        by_contra held
        exact inclusive j t held absent
      rw [fillL2_l1, alone, ite_self]
    · rw [assign_l1]
      exact v.snoop_invalid hj t

lemma SingleWriter.fillL1 (single : v.SingleWriter) (dirty : v.DirtyBelow)
    (alone : v .l2 t = .modified → ∀ j, j ≠ i → v (.l1 j) t = .invalid) (victim : Option L) :
    (v.fillL1 i t victim).SingleWriter := by
  intro a b u hab writes
  have ha := writable_iff.mp writes
  unfold View.fillL1 at ha ⊢
  split at ha
  · cases ha
  split
  · rfl
  by_cases hut : u = t
  · subst hut
    have below : v .l2 u = .modified := by
      split at ha
      · exact ha
      · exact dirty a u ha
    by_cases hb : b = i
    · have hai : a ≠ i := fun h => hab (hb.trans h.symm)
      rw [if_neg (by simp [hai]), alone below a hai] at ha
      cases ha
    · rw [if_neg (by simp [hb]), alone below b hb]
      rfl
  · rw [if_neg fun h => hut h.2] at ha ⊢
    exact single a b u hab (writable_iff.mpr ha)

lemma SingleWriter.memOp (single : v.SingleWriter) (msi : v.Msi) (dirty : v.DirtyBelow)
    (inclusive : v.Inclusive) (apart : ¬ v.SharesDirty i op t) (victim2 victim1 : Option L) :
    (v.memOp i op t victim2 victim1).SingleWriter := by
  unfold View.memOp
  split
  · exact single
  rename_i miss
  have weak := v.assign_weakens i t
  have start := single.weaken msi weak
  have served := start.weaken (msi.assign _ t (by simp))
    ((v.assign (.l1 i) t .invalid).serve_weakens i op t victim2)
  refine served.fillL1 ((dirty.assign_l1 i t).serve i op t victim2) ?_ victim1
  intro dirtyL2 j hj
  refine serve_alone (inclusive.assign_l1 i t) ?_ dirtyL2 hj
  intro reads hm k hk
  by_contra held
  refine apart ⟨reads, ?_, by simpa using hm, k, hk, weak.held held⟩
  simpa [reads, permits] using miss

lemma SharesDirty.breaks (shares : v.SharesDirty i op t) (victim2 : Option L)
    {victim1 : Option L} (hv : victim1 ≠ some t) :
    ¬ (v.memOp i op t victim2 victim1).SingleWriter := by
  obtain ⟨rfl, miss, hm, j, hj, held⟩ := shares
  have survives : some t ≠ victim1 := Ne.symm hv
  intro single
  have asks : ¬ read.permits (v (.l1 i) t) = true := by simp [permits, miss]
  have hit : read.permits (v.assign (.l1 i) t .invalid .l2 t) = true := by
    rw [assign_l1_l2, hm]
    rfl
  have hm' : v.assign (.l1 i) t .invalid .l2 t = .modified := by rw [assign_l1_l2, hm]
  have apart := single i j t hj
  unfold memOp serve at apart
  rw [if_neg asks, if_pos hit, if_neg (by simp), if_pos hm'] at apart
  simp [fillL1, survives, hj, hm, snoop, assign, held, writable, readable] at apart

end Operations

end View

end Sniper
