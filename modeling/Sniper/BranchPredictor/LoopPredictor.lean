import Mathlib.Data.Int.Notation
import Sniper.Lib.Runs
import Sniper.Lib.Selection

/-!
# The loop branch predictor

An entry of `LoopBranchPredictor` expects outcomes in one direction, as many as its limit says, and
then one in the other direction. It is enabled when it has seen the end of such a loop. The ways of
an index are modelled; the branches of other indexes only advance the use count.

A way that is taken over by another branch stays enabled, so that the new branch hits at once.
-/

namespace Sniper.BranchPredictor

open Survivors List

/-- `SaturatingPredictor<1>`. -/
structure SaturatingPredictor where
  counter : ℤ
  range : -1 ≤ counter ∧ counter ≤ 0

namespace SaturatingPredictor

def predict (p : SaturatingPredictor) : Bool := decide (p.counter ≥ 0)

def reset (prediction : Bool) : SaturatingPredictor where
  counter := if prediction = true then 0 else -1
  range := by split <;> decide

def update (actual : Bool) (p : SaturatingPredictor) : SaturatingPredictor where
  counter :=
    if actual = true then if p.counter ≠ 0 then p.counter + 1 else p.counter
    else if p.counter ≠ -1 then p.counter - 1 else p.counter
  range := by
    have range := p.range
    split_ifs <;> omega

@[simp] lemma predict_update (actual : Bool) (p : SaturatingPredictor) :
    (p.update actual).predict = actual := by
  have range := p.range
  cases actual
  · simp only [predict, update, Bool.false_eq_true, if_false, decide_eq_false_iff_not]
    split <;> omega
  · simp only [predict, update, if_true, decide_eq_true_eq]
    split <;> omega

end SaturatingPredictor

structure LoopEntry where
  predictor : SaturatingPredictor
  count : ℕ
  limit : ℕ
  enabled : Bool
  previousActual : Bool

namespace LoopEntry

def prediction (e : LoopEntry) : Bool :=
  if e.count = e.limit then !e.predictor.predict else e.predictor.predict

def sameDirection (actual : Bool) (e : LoopEntry) : LoopEntry :=
  if e.prediction ≠ actual then
    if e.count < e.limit then { e with count := 0, limit := e.count }
    else { e with count := e.count + 1, limit := e.count + 1, enabled := false }
  else { e with count := if e.count = e.limit then 0 else e.count + 1 }

/-- `update`, for the entry with the tag. -/
def update (actual : Bool) (e : LoopEntry) : LoopEntry :=
  let direction := e.predictor.predict
  let next :=
    if e.previousActual = actual ∧ actual = !direction then
      { e with count := 1, limit := 1, predictor := e.predictor.update actual, enabled := false }
    else if e.previousActual ≠ actual ∧ actual = !direction ∧ e.enabled = false then
      { e with enabled := true, count := 0 }
    else e.sameDirection actual
  { next with previousActual := actual }

/-- `update`, for the entry that is taken over. Whether it is enabled is left as it is. -/
def allocate (actual : Bool) (e : LoopEntry) : LoopEntry :=
  { e with predictor := .reset actual, previousActual := actual, count := 1, limit := 1 }

def endsLoop (actual : Bool) (e : LoopEntry) : Bool :=
  e.previousActual = e.predictor.predict && actual = !e.predictor.predict

end LoopEntry

structure Way where
  tag : ℕ
  lru : ℕ
  entry : LoopEntry
  /-- History: the entry has seen the end of a loop since the tag got the way. -/
  sawEnd : Bool

structure LoopSet where
  lruUseCount : ℕ
  ways : List Way

namespace LoopSet

def create (numWays : ℕ) : LoopSet :=
  ⟨0, replicate numWays ⟨0, 0, ⟨.reset true, 0, 0, false, false⟩, false⟩⟩

/-- The test of `lookup`. -/
def hits (tag : ℕ) (way : Way) : Bool := way.entry.enabled && way.tag = tag

/-- `lookup`: the prediction, if there is a hit. -/
def lookup (tag : ℕ) (s : LoopSet) : Option Bool × LoopSet :=
  match s.ways.find? (hits tag) with
  | none => (none, s)
  | some way => (some way.entry.prediction, ⟨s.lruUseCount + 1,
      mapFirst (hits tag) (fun way => { way with lru := s.lruUseCount }) s.ways⟩)

def lruWay (ways : List Way) : ℕ :=
  (range ways.length).foldl (fun best w =>
    if (ways[w]?.map Way.lru).getD 0 < (ways[best]?.map Way.lru).getD 0 then w else best) 0

def update (tag : ℕ) (actual : Bool) (s : LoopSet) : LoopSet where
  lruUseCount := s.lruUseCount + 1
  ways :=
    if s.ways.any (·.tag = tag) = true then
      mapFirst (·.tag = tag) (fun way => { way with
        entry := way.entry.update actual
        lru := s.lruUseCount
        sawEnd := way.sawEnd || way.entry.endsLoop actual }) s.ways
    else s.ways.modify (lruWay s.ways) fun way =>
      ⟨tag, s.lruUseCount, way.entry.allocate actual, false⟩

end LoopSet

inductive Access where
  | lookup (tag : ℕ)
  | update (tag : ℕ) (actual : Bool)
  /-- A hit or an update at another index. -/
  | elsewhere
  deriving DecidableEq, Repr

namespace LoopSet

def step (s : LoopSet) : Access → LoopSet
  | .lookup tag => (s.lookup tag).2
  | .update tag actual => s.update tag actual
  | .elsewhere => { s with lruUseCount := s.lruUseCount + 1 }

/-- The way that `lookup` hits, for a tag other than zero, has seen the end of a loop. -/
def HitsEarned (s : LoopSet) : Prop :=
  ∀ tag ≠ 0, ∀ way, s.ways.find? (hits tag) = some way → way.sawEnd = true

/-- A way that is given to a tag other than zero is not enabled. -/
def Clean (s : LoopSet) : Access → Prop
  | .update tag _ => tag ≠ 0 → (∀ way ∈ s.ways, way.tag ≠ tag) →
      ∀ way, s.ways[lruWay s.ways]? = some way → way.entry.enabled = false
  | _ => True

def Earned (s : LoopSet) : Prop :=
  ∀ way ∈ s.ways, way.tag ≠ 0 → way.entry.enabled = true → way.sawEnd = true

section Earned

variable {s : LoopSet}

variable {actual : Bool} {e : LoopEntry}

lemma enabled_sameDirection
    (enabled : (e.sameDirection actual).enabled = true) : e.enabled = true := by
  rw [LoopEntry.sameDirection] at enabled
  split_ifs at enabled <;> exact enabled

lemma enabled_update
    (enabled : (e.update actual).enabled = true) : e.enabled = true ∨ e.endsLoop actual = true := by
  rw [LoopEntry.update] at enabled
  split_ifs at enabled with turns ends
  · obtain ⟨other, against, -⟩ := ends
    refine .inr ?_
    cases before : e.previousActual <;> cases actual <;> simp_all [LoopEntry.endsLoop]
  · exact .inl (enabled_sameDirection enabled)

lemma earned_create (numWays : ℕ) : Earned (create numWays) := by
  intro way mem _ enabled
  rw [(mem_replicate.mp mem).2] at enabled
  cases enabled

/-- What holds of every way is kept by an access that keeps it on a hit, on an update and for the
way that is taken over. -/
lemma ways_step {P : Way → Prop} {access : Access} (all : ∀ way ∈ s.ways, P way)
    (touch : ∀ way, P way → P { way with lru := s.lruUseCount })
    (update : ∀ actual way, P way → P { way with
      entry := way.entry.update actual
      lru := s.lruUseCount
      sawEnd := way.sawEnd || way.entry.endsLoop actual })
    (allocate : ∀ tag actual, access = .update tag actual → (∀ way ∈ s.ways, way.tag ≠ tag) →
      ∀ way, s.ways[lruWay s.ways]? = some way →
        P ⟨tag, s.lruUseCount, way.entry.allocate actual, false⟩) :
    ∀ way ∈ (s.step access).ways, P way := by
  intro way mem
  cases access with
  | lookup tag =>
    rw [step, lookup] at mem
    split at mem
    · exact all way mem
    · rcases mem_mapFirst mem with there | ⟨old, there, -, rfl⟩
      · exact all way there
      · exact touch old (all old there)
  | update tag actual =>
    rw [step, LoopSet.update] at mem
    split at mem
    · rcases mem_mapFirst mem with there | ⟨old, there, -, rfl⟩
      · exact all way there
      · exact update actual old (all old there)
    · next missing =>
      obtain ⟨i, there⟩ := mem_iff_getElem?.mp mem
      rw [getElem?_modify] at there
      obtain ⟨old, stood, same⟩ := Option.map_eq_some_iff.mp there
      split at same
      · next taken =>
        subst same taken
        exact allocate tag actual rfl (by simpa using missing) old stood
      · exact same ▸ all old (mem_of_getElem? stood)
  | elsewhere => exact all way mem

lemma earned_step (s : LoopSet) (access : Access) (earned : Earned s) (clean : Clean s access) :
    Earned (s.step access) := by
  refine ways_step earned (fun _ earned => earned) ?_ ?_
  · intro actual way earned nonzero enabled
    rw [Bool.or_eq_true]
    exact (enabled_update enabled).imp_left (earned nonzero)
  · rintro tag actual rfl absent way stood nonzero enabled
    exact absurd ((clean nonzero absent way stood).symm.trans enabled) Bool.false_ne_true

open LoopSet

lemma Earned.hits (earned : Earned s) : HitsEarned s := by
  intro tag nonzero way found
  have both := find?_some found
  rw [LoopSet.hits, Bool.and_eq_true, decide_eq_true_eq] at both
  exact earned way (mem_of_find?_eq_some found) (both.2 ▸ nonzero) both.1

lemma not_hitsEarned_of_taken (s : LoopSet) (access : Access) (dirty : ¬ Clean s access) :
    ¬ HitsEarned (s.step access) := by
  cases access with
  | lookup _ | elsewhere => exact absurd trivial dirty
  | update tag actual =>
    simp only [Clean, not_forall] at dirty
    obtain ⟨nonzero, absent, old, stood, enabled⟩ := dirty
    have missing : ¬ s.ways.any (·.tag = tag) = true := by simpa using absent
    have new : (s.step (.update tag actual)).ways[lruWay s.ways]? =
        some ⟨tag, s.lruUseCount, old.entry.allocate actual, false⟩ := by
      rw [step, update, if_neg missing, getElem?_modify, stood]
      exact congrArg some (if_pos rfl)
    intro earned
    -- the way that was taken is the only one with the tag
    have only : ∀ way ∈ (s.step (.update tag actual)).ways, hits tag way = true →
        way.sawEnd = false := by
      intro way mem here
      obtain ⟨i, there⟩ := mem_iff_getElem?.mp mem
      rw [step, update, if_neg missing, getElem?_modify] at there
      obtain ⟨before, before_there, same⟩ := Option.map_eq_some_iff.mp there
      split at same
      · rw [← same]
      · subst same
        rw [hits, Bool.and_eq_true, decide_eq_true_eq] at here
        exact absurd here.2 (absent before (mem_of_getElem? before_there))
    cases found : (s.step (.update tag actual)).ways.find? (hits tag) with
    | none =>
      refine absurd (find?_eq_none.mp found _ (mem_of_getElem? new)) ?_
      simpa [hits, LoopEntry.allocate] using enabled
    | some way =>
      have saw := only way (mem_of_find?_eq_some found) (find?_some found)
      rw [earned tag nonzero way found] at saw
      cases saw

end Earned

/-- Hits are earned in every state of a run exactly when no way is enabled that is given to another
branch. -/
theorem hits_earned_iff (numWays : ℕ) (accesses : List Access) :
    Runs.Throughout step HitsEarned (create numWays) accesses ↔
      Runs.Guarded step Clean (create numWays) accesses :=
  Runs.throughout_iff_guarded earned_step (fun _ => Earned.hits)
    (fun s access _ => not_hitsEarned_of_taken s access) (earned_create numWays) accesses

/-- One way: the branch with tag 1 ends a loop, then the branch with tag 2 takes its way. -/
theorem newBranch_hits :
    let accesses := [Access.update 1 true, .update 1 true, .update 1 false, .update 2 true]
    ((Runs.run step (create 1) accesses).lookup 2).1 = some false ∧
      ¬ Runs.Throughout step HitsEarned (create 1) accesses := by
  refine ⟨by decide, fun earned => ?_⟩
  have last := earned.2.2.2.2 2 (by decide) _ rfl
  exact absurd last (by decide)

end LoopSet

end Sniper.BranchPredictor
