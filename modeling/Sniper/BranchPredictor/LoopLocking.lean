import Mathlib.Order.Lattice.Nat
import Sniper.BranchPredictor.LoopPredictor

/-!
# Locking onto a loop

A branch that keeps going in one direction a fixed number of times, and then once in the other one,
is predicted without a miss from the third period on. In the first period the entry gets to know the
direction and is enabled at its end; in the second it gets to know the length. A loop of length one
may be taken for the one in the other direction.
-/

namespace Sniper.BranchPredictor

open Survivors List Runs Bool

namespace LoopEntry

structure At (e : LoopEntry) (direction : Bool) (count limit : ℕ) (enabled previous : Bool) :
    Prop where
  direction : e.predictor.predict = direction
  count : e.count = count
  limit : e.limit = limit
  enabled : e.enabled = enabled
  previous : e.previousActual = previous

section Steps

variable {e : LoopEntry} {b enabled previous : Bool} {count limit n : ℕ}

lemma At.forward (here : e.At b count limit enabled previous) (ordered : count ≤ limit) :
    (e.update b).At b (count + 1) (max limit (count + 1)) (enabled && decide (count + 1 ≤ limit))
      b := by
  obtain ⟨rfl, rfl, rfl, rfl, rfl⟩ := here
  have along : ¬ (e.predictor.predict = !e.predictor.predict) := by simp
  rw [update, if_neg fun turns => along turns.2, if_neg fun ends => along ends.2.1, sameDirection,
    prediction]
  by_cases full : e.count = e.limit
  · simp only [full, if_true, not_eq_eq_eq_not, ne_eq, lt_irrefl, if_false]
    exact ⟨by simp, by simp, by simp, by simp, by simp⟩
  · have more : e.count + 1 ≤ e.limit := by omega
    simp only [full, if_false, ne_eq, not_true_eq_false]
    exact ⟨rfl, rfl, (max_eq_left more).symm, by simp [more], rfl⟩

lemma At.ends (here : e.At b count limit enabled b) (ordered : count ≤ limit) :
    (e.update !b).At b 0 (if enabled = true then count else limit) true !b := by
  obtain ⟨rfl, rfl, rfl, rfl, same⟩ := here
  have turned : ¬ (e.previousActual = !e.predictor.predict) := by simp [same]
  rw [update, if_neg fun turns => turned turns.1]
  cases enabled : e.enabled with
  | false =>
    rw [if_pos ⟨turned, rfl, rfl⟩]
    exact ⟨rfl, rfl, rfl, rfl, rfl⟩
  | true =>
    rw [if_neg fun ends => absurd ends.2.2 (by decide), sameDirection, prediction]
    by_cases full : e.count = e.limit
    · simp only [full, if_true, ne_eq, not_true_eq_false, if_false]
      exact ⟨rfl, rfl, rfl, enabled, rfl⟩
    · have less : e.count < e.limit := by omega
      simp only [full, if_false, less, if_true, ne_eq, eq_not_self, not_false_eq_true]
      exact ⟨rfl, rfl, rfl, enabled, rfl⟩

lemma At.turns (here : e.At (!b) count limit enabled b) : (e.update b).At b 1 1 false b := by
  have turns : e.previousActual = b ∧ b = !e.predictor.predict := by
    rw [here.previous, here.direction, Bool.not_not]
    exact ⟨rfl, rfl⟩
  rw [update, if_pos turns]
  exact ⟨by simp, rfl, rfl, rfl, rfl⟩

def updates (outcomes : List Bool) (e : LoopEntry) : LoopEntry :=
  outcomes.foldl (fun e actual => e.update actual) e

lemma updates_append (first second : List Bool) :
    e.updates (first ++ second) = (e.updates first).updates second := foldl_append

lemma updates_replicate_succ (k : ℕ) :
    e.updates (replicate (k + 1) b) = (e.updates (replicate k b)).update b := by
  rw [replicate_succ', updates_append]
  rfl

lemma At.forwards (here : e.At b count limit enabled previous) (ordered : count ≤ limit) (k : ℕ) :
    (e.updates (replicate (k + 1) b)).At b (count + (k + 1)) (max limit (count + (k + 1)))
      (enabled && decide (count + (k + 1) ≤ limit)) b := by
  induction k with
  | zero => exact here.forward ordered
  | succ k ih =>
    rw [updates_replicate_succ]
    have next := ih.forward (le_max_right _ _)
    convert next using 1
    · omega
    · omega
    · have steps : count + (k + 1) + 1 ≤ max limit (count + (k + 1)) ↔
          count + (k + 1 + 1) ≤ limit := by omega
      rw [decide_eq_decide.mpr steps, Bool.and_assoc]
      congr 1
      rw [← decide_and]
      exact decide_eq_decide.mpr (by omega)

def period (n : ℕ) (b : Bool) : List Bool := replicate n b ++ [!b]

lemma updates_period : e.updates (period n b) = (e.updates (replicate n b)).update !b :=
  updates_append ..

lemma At.period (here : e.At b count limit enabled previous) (ordered : count ≤ limit)
    (started : 0 < n ∨ previous = b) :
    ∃ learned, (e.updates (period n b)).At b 0 learned true (!b) ∧
      (enabled = true → count = 0 → learned = n) := by
  rw [updates_period]
  cases n with
  | zero =>
    obtain rfl := started.resolve_left (lt_irrefl 0)
    refine ⟨_, here.ends ordered, ?_⟩
    rintro rfl rfl
    rfl
  | succ k =>
    refine ⟨_, (here.forwards ordered k).ends (le_max_right _ _), ?_⟩
    rintro rfl rfl
    simp only [Bool.true_and, decide_eq_true_eq]
    split <;> omega

def Locked (n : ℕ) (b : Bool) (e : LoopEntry) : Prop :=
  e.At b 0 n true (!b) ∨ n = 1 ∧ e.At (!b) 1 1 true (!b)

lemma Locked.period (locked : e.Locked n b) (positive : 0 < n) :
    (e.updates (period n b)).Locked n b := by
  rcases locked with here | ⟨rfl, here⟩
  · obtain ⟨learned, next, right⟩ := here.period (Nat.zero_le _) (.inl positive)
    rw [right rfl rfl] at next
    exact .inl next
  · have first := here.ends le_rfl
    rw [Bool.not_not] at first
    exact .inr ⟨rfl, first.forward (Nat.zero_le _)⟩

lemma Locked.predicts (locked : e.Locked n b) {i : ℕ} (inside : i ≤ n) :
    (e.updates (replicate i b)).enabled = true ∧
      (e.updates (replicate i b)).prediction = if i = n then !b else b := by
  rcases locked with here | ⟨rfl, here⟩
  · cases i with
    | zero =>
      refine ⟨here.enabled, ?_⟩
      simp [updates, prediction, here.count, here.limit, here.direction]
    | succ k =>
      have next := here.forwards (Nat.zero_le _) k
      refine ⟨by simp [next.enabled, inside], ?_⟩
      rw [prediction, next.count, next.limit, next.direction, Nat.zero_add, max_eq_left inside]
  · obtain rfl | rfl : i = 0 ∨ i = 1 := by omega
    · refine ⟨here.enabled, ?_⟩
      simp [updates, prediction, here.count, here.limit, here.direction]
    · have next := here.ends le_rfl
      rw [Bool.not_not] at next
      refine ⟨next.enabled, ?_⟩
      change (e.update b).prediction = _
      simp [prediction, next.count, next.limit, next.direction]

lemma Locked.of_at (here : e.At b 0 limit true previous) (positive : 0 < n) :
    (e.updates (LoopEntry.period n b)).Locked n b := by
  obtain ⟨learned, next, right⟩ := here.period (Nat.zero_le _) (.inl positive)
  rw [right rfl rfl] at next
  exact .inl next

lemma period_of_against (ordered : e.count ≤ e.limit) (against : e.predictor.predict = !b)
    (k : ℕ) : ∃ learned, (e.updates (period (k + 2) b)).At b 0 learned true !b := by
  have here : e.At (!b) e.count e.limit e.enabled e.previousActual := ⟨against, rfl, rfl, rfl, rfl⟩
  by_cases turns : e.previousActual = b
  · rw [turns] at here
    obtain ⟨learned, next, -⟩ := here.turns.period le_rfl (n := k + 1) (.inr rfl)
    exact ⟨learned, next⟩
  · rw [eq_not_of_ne turns] at here
    have first := here.ends ordered
    rw [Bool.not_not] at first
    obtain ⟨learned, next, -⟩ := first.turns.period le_rfl (n := k) (.inr rfl)
    exact ⟨learned, next⟩

lemma locked_of_two (ordered : e.count ≤ e.limit) (positive : 0 < n) (b : Bool) :
    ((e.updates (period n b)).updates (period n b)).Locked n b := by
  by_cases along : e.predictor.predict = b
  · obtain ⟨learned, first, -⟩ := At.period ⟨along, rfl, rfl, rfl, rfl⟩ ordered (.inl positive)
    exact Locked.of_at first positive
  have against := eq_not_of_ne along
  obtain ⟨k, rfl⟩ | rfl : (∃ k, n = k + 2) ∨ n = 1 := by
    obtain _ | _ | k := n
    exacts [absurd positive (lt_irrefl 0), .inr rfl, .inl ⟨k, rfl⟩]
  · obtain ⟨learned, first⟩ := period_of_against ordered against k
    exact Locked.of_at first positive
  by_cases turns : e.previousActual = b
  · have first := At.turns ⟨against, rfl, rfl, rfl, turns⟩
    exact Locked.of_at (first.ends le_rfl) positive
  · -- The entry takes the single outcomes of the loop for the ends of one in its own direction.
    have first := At.ends ⟨against, rfl, rfl, rfl, eq_not_of_ne turns⟩ ordered
    rw [Bool.not_not] at first
    generalize (if e.enabled = true then e.count else e.limit) = learned at first
    have second := (first.forward (Nat.zero_le _)).ends (le_max_right _ _)
    have one : (if (true && decide (0 + 1 ≤ learned)) = true then 0 + 1
        else max learned (0 + 1)) = 1 := by
      simp only [Bool.true_and, decide_eq_true_eq]
      split <;> omega
    rw [Bool.not_not, one] at second
    exact .inr ⟨rfl, second.forward (Nat.zero_le _)⟩

lemma updates_periods (k : ℕ) : e.updates (replicate (k + 1) (period n b)).flatten =
      (e.updates (replicate k (period n b)).flatten).updates (period n b) := by
  rw [replicate_succ', flatten_append, updates_append, flatten_singleton]

lemma locked_of_periods (ordered : e.count ≤ e.limit) (positive : 0 < n) (b : Bool) (k : ℕ) :
    (e.updates (replicate (k + 2) (period n b)).flatten).Locked n b := by
  induction k with
  | zero =>
    rw [updates_periods, updates_periods]
    exact locked_of_two ordered positive b
  | succ k ih =>
    rw [updates_periods]
    exact ih.period positive

lemma ordered_update (actual : Bool) (ordered : e.count ≤ e.limit) :
    (e.update actual).count ≤ (e.update actual).limit := by
  rw [update, sameDirection]
  split_ifs <;> (simp only [le_refl, Nat.zero_le]; try omega)

end Steps

end LoopEntry

namespace LoopSet

def Holds (tag : ℕ) (e : LoopEntry) (s : LoopSet) : Prop :=
  (s.ways.filter (·.tag = tag)).map Way.entry = [e]

def Ordered (s : LoopSet) : Prop := ∀ way ∈ s.ways, way.entry.count ≤ way.entry.limit

/-- The accesses of a branch: a lookup before each outcome, and an update after it. -/
def branch (tag : ℕ) (outcomes : List Bool) : List Access :=
  outcomes.flatMap fun actual => [.lookup tag, .update tag actual]

section Lift

variable {s : LoopSet} {tag : ℕ} {e : LoopEntry}

lemma Holds.lookup (holds : Holds tag e s) :
    (s.lookup tag).1 = if e.enabled = true then some e.prediction else none := by
  obtain ⟨way, only, rfl⟩ := map_eq_singleton_iff.mp holds
  have found : s.ways.find? (hits tag) = ([way].filter fun way => way.entry.enabled).head? := by
    rw [← head?_filter, ← only, filter_filter]
    rfl
  rw [LoopSet.lookup, found]
  cases enabled : way.entry.enabled <;> simp [enabled]

lemma Holds.step_lookup (holds : Holds tag e s) : Holds tag e (s.step (.lookup tag)) := by
  rw [step, LoopSet.lookup]
  split
  · exact holds
  · refine (map_filter_congr ?_).trans holds
    rw [map_mapFirst]
    intro way
    rfl

lemma Holds.step_update (holds : Holds tag e s) (actual : Bool) :
    Holds tag (e.update actual) (s.step (.update tag actual)) := by
  obtain ⟨way, only, rfl⟩ := map_eq_singleton_iff.mp holds
  have there : s.ways.any (·.tag = tag) = true := by
    have mem : way ∈ s.ways.filter (·.tag = tag) := by simp [only]
    exact any_eq_true.mpr ⟨way, mem_filter.mp mem⟩
  rw [Holds, step, LoopSet.update, if_pos there, filter_mapFirst, only]
  · rfl
  · intro way
    rfl

lemma Holds.branch (holds : Holds tag e s) (outcomes : List Bool) :
    Holds tag (e.updates outcomes) (run step s (branch tag outcomes)) := by
  induction outcomes generalizing s e with
  | nil => exact holds
  | cons actual outcomes ih => exact ih (holds.step_lookup.step_update actual)

lemma ordered_create (numWays : ℕ) : Ordered (create numWays) := by
  intro way mem
  rw [(mem_replicate.mp mem).2]

lemma ordered_step (s : LoopSet) (access : Access) (ordered : Ordered s) :
    Ordered (s.step access) :=
  ways_step ordered (fun _ ordered => ordered)
    (fun actual _ ordered => LoopEntry.ordered_update actual ordered)
    (fun _ _ _ _ _ _ => le_rfl)

end Lift

/-- Whatever was done before, a branch that repeats a loop hits and is predicted right at every
outcome from the third period on. -/
theorem locks_onto_loop (numWays : ℕ) (accesses : List Access) (tag : ℕ)
    (held : (run step (create numWays) accesses).ways.countP (·.tag = tag) = 1)
    (n : ℕ) (positive : 0 < n) (b : Bool) (k : ℕ) (later : 2 ≤ k) (i : ℕ) (inside : i ≤ n) :
    ((run step (create numWays) (accesses ++ branch tag
        ((replicate k (LoopEntry.period n b)).flatten ++ replicate i b))).lookup tag).1 =
      some (if i = n then !b else b) := by
  rw [countP_eq_length_filter, length_eq_one_iff] at held
  obtain ⟨way, only⟩ := held
  have holds : Holds tag way.entry (run step (create numWays) accesses) := by
    rw [Holds, only]
    rfl
  have ordered : way.entry.count ≤ way.entry.limit := by
    have mem : way ∈ (run step (create numWays) accesses).ways.filter (·.tag = tag) := by
      simp [only]
    exact run_invariant ordered_step (ordered_create numWays) accesses way
      (mem_filter.mp mem).1
  obtain ⟨k, rfl⟩ := Nat.exists_eq_add_of_le' later
  have locked := LoopEntry.locked_of_periods ordered positive b k
  obtain ⟨enabled, predicts⟩ := locked.predicts inside
  rw [run_append, (holds.branch _).lookup, LoopEntry.updates_append, if_pos enabled, predicts]

/-- A branch with a loop of three, after another branch with the same tag turned around. -/
theorem loopOfThree_locks :
    ((run step (create 2) ([.update 5 true, .update 5 false] ++ branch 5
        ((replicate 2 (LoopEntry.period 3 true)).flatten ++
          replicate 3 true))).lookup 5).1 = some false :=
  locks_onto_loop 2 [.update 5 true, .update 5 false] 5 (by decide) 3 (by decide) true 2 le_rfl 3
    le_rfl

end LoopSet

end Sniper.BranchPredictor
