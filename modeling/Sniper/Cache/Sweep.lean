import Sniper.Cache.Operations
import Sniper.Cache.Ways

/-!
# Clearing the ways of one set

What `block_transfer` does to a set of the shared cache, as a function of that
set alone: each way that went off is emptied, and a dirty block is filled in
again by the gated replacement. Nothing here depends on the other caches.
-/

namespace Sniper

open CacheBlockInfo

namespace CacheSet

variable {A : Nat} [NeZero A]

/-- Way `v` is emptied; a dirty block goes to the way the replacement chooses. -/
def relocate (on : Fin A → Bool) (s : CacheSet A) (v : Fin A) : CacheSet A :=
  let cleared := s.setBlock v .empty
  if (s.blocks v).cstate = .modified then
    (cleared.moveToMRUFlex (cleared.replacementWayFlex on) on).setBlock
      (cleared.replacementWayFlex on) ⟨(s.blocks v).tag, .modified⟩
  else cleared

/-- The fill that `relocate` makes, if it makes one. -/
def relocation (on : Fin A → Bool) (s : CacheSet A) (v : Fin A) : List (FillRecord A) :=
  let cleared := s.setBlock v .empty
  if (s.blocks v).cstate = .modified then [⟨cleared, on, cleared.replacementWayFlex on⟩] else []

def sweep (on : Fin A → Bool) (s : CacheSet A) (vs : List (Fin A)) : CacheSet A :=
  vs.foldl (relocate on) s

def sweepFills (on : Fin A → Bool) : CacheSet A → List (Fin A) → List (FillRecord A)
  | _, [] => []
  | s, v :: vs => s.relocation on v ++ sweepFills on (s.relocate on v) vs

def swept (s : CacheSet A) (r : Switched A) : CacheSet A :=
  if r.didChangeHappen = true ∧ s.isLeader = false then s.sweep r.on (wayRange A r.max r.min)
  else s

def sweptFills (s : CacheSet A) (r : Switched A) : List (FillRecord A) :=
  if r.didChangeHappen = true ∧ s.isLeader = false then s.sweepFills r.on (wayRange A r.max r.min)
  else []

variable {on : Fin A → Bool} {s : CacheSet A} {v u : Fin A}

@[simp] lemma relocate_isLeader : (s.relocate on v).isLeader = s.isLeader := by
  unfold relocate
  split <;> rfl

section

variable (first : on 0 = true)

include first

lemma relocate_blocks : (∀ u, (s.relocate on v).blocks u = (s.setBlock v .empty).blocks u) ∨
      ((s.blocks v).cstate = .modified ∧ ∃ w, on w = true ∧
        (s.relocate on v).blocks w = ⟨(s.blocks v).tag, .modified⟩ ∧
        ∀ u, u ≠ w → (s.relocate on v).blocks u = (s.setBlock v .empty).blocks u) := by
  unfold relocate
  split
  · rename_i dirty
    refine .inr ⟨dirty, (s.setBlock v .empty).replacementWayFlex on,
      replacementWayFlex_on first, by simp, fun u hu => ?_⟩
    rw [setBlock_of_ne _ _ hu, moveToMRUFlex_blocks]
  · exact .inl fun _ => rfl

lemma relocate_off (off : on u = false) (hu : u ≠ v) : (s.relocate on v).blocks u = s.blocks u := by
  have same : (s.setBlock v .empty).blocks u = s.blocks u := setBlock_of_ne _ _ hu
  rcases relocate_blocks (s := s) (v := v) first with h | ⟨-, w, hw, -, h⟩
  · rw [h, same]
  · rw [h u (by rintro rfl; rw [off] at hw; cases hw), same]

lemma relocate_self (off : on v = false) : (s.relocate on v).blocks v = .empty := by
  rcases relocate_blocks (s := s) (v := v) first with h | ⟨-, w, hw, -, h⟩
  · rw [h, setBlock_self]
  · rw [h v (by rintro rfl; rw [off] at hw; cases hw), setBlock_self]

lemma relocate_valid (valid : ((s.relocate on v).blocks u).isValid = true) :
    on u = true ∨ (u ≠ v ∧ (s.blocks u).isValid = true) := by
  cases off : on u with
  | true => exact .inl rfl
  | false =>
    by_cases hu : u = v
    · subst hu
      rw [relocate_self first off] at valid
      simp at valid
    · rw [relocate_off first off hu] at valid
      exact .inr ⟨hu, valid⟩

lemma sweep_valid (vs : List (Fin A)) (valid : ((s.sweep on vs).blocks u).isValid = true) :
    on u = true ∨ (u ∉ vs ∧ (s.blocks u).isValid = true) := by
  induction vs generalizing s with
  | nil => exact .inr ⟨by simp, valid⟩
  | cons v vs ih =>
    rcases ih valid with h | ⟨hu, h⟩
    · exact .inl h
    · rcases relocate_valid first h with h | ⟨hv, h⟩
      · exact .inl h
      · exact .inr ⟨by simp [hu, hv], h⟩

end

lemma sweep_clean (vs : List (Fin A)) (clean : ∀ v ∈ vs, (s.blocks v).cstate ≠ .modified)
    (hu : u ∉ vs) : (s.sweep on vs).blocks u = s.blocks u := by
  induction vs generalizing s with
  | nil => rfl
  | cons v vs ih =>
    obtain ⟨huv, hu⟩ := not_or.mp (List.mem_cons.not.mp hu)
    have dropped : s.relocate on v = s.setBlock v .empty := if_neg (clean v (by simp))
    have clean' : ∀ x ∈ vs, ((s.relocate on v).blocks x).cstate ≠ .modified := by
      intro x hx
      rw [dropped]
      by_cases hxv : x = v
      · subst hxv; simp
      · rw [setBlock_of_ne _ _ hxv]
        exact clean x (List.mem_cons_of_mem v hx)
    rw [sweep, List.foldl_cons]
    refine (ih clean' hu).trans ?_
    rw [dropped, setBlock_of_ne _ _ huv]

@[simp] lemma sweep_isLeader (vs : List (Fin A)) : (s.sweep on vs).isLeader = s.isLeader := by
  induction vs generalizing s with
  | nil => rfl
  | cons v vs ih => exact (ih (s := s.relocate on v)).trans relocate_isLeader

@[simp] lemma swept_isLeader (r : Switched A) : (s.swept r).isLeader = s.isLeader := by
  unfold swept
  split
  · exact sweep_isLeader _
  · rfl

section Homed

variable {g : Geometry} {n : Nat} {s : CacheSet g.assoc} {v : Fin g.assoc}

lemma Homed.fresh (homed : s.Homed g n) (dirty : (s.blocks v).cstate = .modified) :
    (s.blocks v).isValid = true ∧ ∀ j, ((s.setBlock v .empty).blocks j).tag ≠ (s.blocks v).tag := by
  have valid : (s.blocks v).isValid = true := by
    rw [isValid_iff]
    intro empty
    rw [homed.blank v empty] at dirty
    cases dirty
  refine ⟨valid, fun j same => ?_⟩
  by_cases hj : j = v
  · subst hj
    rw [setBlock_self] at same
    exact (isValid_iff _).mp valid same.symm
  · rw [setBlock_of_ne _ _ hj] at same
    exact hj (homed.unique v j valid same.symm).symm

lemma Homed.relocate (homed : s.Homed g n) (on : Fin g.assoc → Bool) (v : Fin g.assoc) :
    (s.relocate on v).Homed g n := by
  have cleared := homed.setBlock (fits_empty g n s v)
  unfold CacheSet.relocate
  split
  · rename_i dirty
    obtain ⟨valid, fresh⟩ := homed.fresh dirty
    refine (cleared.congr (moveToMRUFlex_blocks _ _ on)).setBlock
      ⟨fun _ => homed.home v valid, fun _ j _ => fresh j, fun empty => ?_⟩
    exact absurd empty ((isValid_iff _).mp valid)
  · exact cleared

lemma Homed.sweep (homed : s.Homed g n) (on : Fin g.assoc → Bool) (vs : List (Fin g.assoc)) :
    (s.sweep on vs).Homed g n := by
  induction vs generalizing s with
  | nil => exact homed
  | cons v vs ih => exact ih (homed.relocate on v)

lemma Homed.swept (homed : s.Homed g n) (r : Switched g.assoc) : (s.swept r).Homed g n := by
  unfold CacheSet.swept
  split
  · exact homed.sweep _ _
  · exact homed

end Homed

end CacheSet

namespace Cache

variable {g : Geometry}

def rewrite (c : Cache g) (s : Nat) (set : CacheSet g.assoc) (fills : List (FillRecord g.assoc)) :
    Cache g :=
  { c with sets := Function.update c.sets s set, fills := c.fills ++ fills }

@[simp] lemma rewrite_mask (c : Cache g) (s : Nat) (set : CacheSet g.assoc)
    (fills : List (FillRecord g.assoc)) : (c.rewrite s set fills).mask = c.mask := rfl

@[simp] lemma rewrite_sets_self (c : Cache g) (s : Nat) (set : CacheSet g.assoc)
    (fills : List (FillRecord g.assoc)) : (c.rewrite s set fills).sets s = set := by
  simp [rewrite]

lemma rewrite_self (c : Cache g) (s : Nat) : c.rewrite s (c.sets s) [] = c := by
  simp [rewrite]

lemma rewrite_rewrite (c : Cache g) (s : Nat) (a b : CacheSet g.assoc)
    (fills more : List (FillRecord g.assoc)) :
    (c.rewrite s a fills).rewrite s b more = c.rewrite s b (fills ++ more) := by
  simp [rewrite]

lemma insertSingleLine_rewrite {c : Cache g} {addr : IntPtr} (placed : c.Placed)
    (follower : (c.setAt addr).isLeader = false)
    (absent : ∀ i, ((c.setAt addr).blocks i).tag ≠ g.tagOf addr) (st : CState) :
    let s := g.setIndex (g.tagOf addr)
    let w := (c.sets s).replacementWayFlex (c.mask s)
    (c.insertSingleLine addr true).1.find addr = some w ∧
      (c.insertSingleLine addr true).1.setCState s w st =
        c.rewrite s (((c.sets s).moveToMRUFlex w (c.mask s)).setBlock w ⟨g.tagOf addr, st⟩)
          [⟨c.sets s, c.mask s, w⟩] := by
  have unfolded : (c.insertSingleLine addr true).1 = c.rewrite (g.setIndex (g.tagOf addr))
        (((c.setAt addr).insertFlex ⟨g.tagOf addr, .invalid⟩
          (c.mask (g.setIndex (g.tagOf addr)))).set)
        [⟨c.setAt addr, c.mask (g.setIndex (g.tagOf addr)),
          (c.setAt addr).replacementWayFlex (c.mask (g.setIndex (g.tagOf addr)))⟩] := by
    have gated : (true && !(c.setAt addr).isLeader) = true := by simp [follower]
    rw [insertSingleLine]
    exact congrArg Prod.fst (if_pos gated)
  have filled : ((c.setAt addr).insertFlex ⟨g.tagOf addr, .invalid⟩
      (c.mask (g.setIndex (g.tagOf addr)))).set.Homed g (g.setIndex (g.tagOf addr)) := by
    refine ((placed _).congr (CacheSet.moveToMRUFlex_blocks _ _ _)).setBlock
      ⟨fun _ => ⟨rfl, g.tagOf_isLine addr⟩, fun _ j _ => absent j, fun empty => ?_⟩
    exact absurd empty (g.tagOf_ne_noTag addr)
  rw [unfolded]
  refine ⟨?_, ?_⟩
  · rw [Cache.find, setAt, rewrite_sets_self]
    apply filled.unique.find_eq
    · simpa [isValid_iff, CacheSet.insertFlex, CacheSet.place,
        CacheSet.getReplacementIndexFlex] using g.tagOf_ne_noTag addr
    · simp [CacheSet.insertFlex, CacheSet.place, CacheSet.getReplacementIndexFlex]
  · simp [Cache.setCState, put, setSet, rewrite, CacheSet.insertFlex, CacheSet.place,
      CacheSet.getReplacementIndexFlex, CacheSet.setBlock]

end Cache

end Sniper
