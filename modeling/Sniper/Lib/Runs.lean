import Mathlib.Data.List.Basic
import Mathlib.Logic.Function.Iterate

/-!
# Runs of a deterministic system

A system is a step function on a state type. A run is the list of the inputs
it consumes. `Throughout` speaks about every state a run passes through and
`Guarded` about every step it takes; both unfold with the run, so that a step
lemma lifts to whole runs by one induction that is done here once.
-/

namespace Runs

open List

universe u v

variable {σ : Type u} {ε : Type v} (step : σ → ε → σ)

def run (s : σ) (es : List ε) : σ := es.foldl step s

@[simp] lemma run_nil (s : σ) : run step s [] = s := rfl

@[simp] lemma run_cons (s : σ) (e : ε) (es : List ε) :
    run step s (e :: es) = run step (step s e) es := rfl

lemma run_append (s : σ) (es fs : List ε) : run step s (es ++ fs) = run step (run step s es) fs :=
  foldl_append

/-- `P` holds in the start state and after every step of the run. -/
def Throughout (P : σ → Prop) : σ → List ε → Prop
  | s, [] => P s
  | s, e :: es => P s ∧ Throughout P (step s e) es

/-- Every step of the run is taken in a state where `ok` allows it. -/
def Guarded (ok : σ → ε → Prop) : σ → List ε → Prop
  | _, [] => True
  | s, e :: es => ok s e ∧ Guarded ok (step s e) es

instance (ok : σ → ε → Prop) [∀ s e, Decidable (ok s e)] :
    (s : σ) → (es : List ε) → Decidable (Guarded step ok s es)
  | _, [] => .isTrue trivial
  | s, e :: es =>
    have := instDecidableGuarded ok (step s e) es
    inferInstanceAs (Decidable (ok s e ∧ Guarded step ok (step s e) es))

variable {step} {I P : σ → Prop} {ok : σ → ε → Prop}

variable {s : σ}

lemma run_invariant (keep : ∀ s e, I s → I (step s e)) (start : I s)
    (es : List ε) : I (run step s es) := by
  induction es generalizing s with
  | nil => exact start
  | cons e es ih => exact ih (keep s e start)

variable {es : List ε}

lemma run_guarded (keep : ∀ s e, I s → ok s e → I (step s e)) (start : I s)
    (steps : Guarded step ok s es) : I (run step s es) := by
  induction es generalizing s with
  | nil => exact start
  | cons e es ih => exact ih (keep s e start steps.1) steps.2

lemma guarded_of_forall (always : ∀ e ∈ es, ∀ s, ok s e) (s : σ) : Guarded step ok s es := by
  induction es generalizing s with
  | nil => exact trivial
  | cons e es ih =>
    exact ⟨always e (by simp) s, ih (fun e he => always e (mem_cons_of_mem _ he)) _⟩

lemma guarded_append {fs : List ε} :
    Guarded step ok s (es ++ fs) ↔ Guarded step ok s es ∧ Guarded step ok (run step s es) fs := by
  induction es generalizing s with
  | nil => simp [Guarded]
  | cons e es ih => simp [Guarded, ih, and_assoc]

variable {ok' : σ → ε → Prop}

lemma guarded_iff (keep : ∀ s e, I s → I (step s e))
    (same : ∀ s e, I s → (ok s e ↔ ok' s e)) (start : I s) (es : List ε) :
    Guarded step ok s es ↔ Guarded step ok' s es := by
  induction es generalizing s with
  | nil => exact Iff.rfl
  | cons e es ih => exact and_congr (same s e start) (ih (keep s e start))

lemma Guarded.and (steps : Guarded step ok s es)
    (steps' : Guarded step ok' s es) : Guarded step (fun s e => ok s e ∧ ok' s e) s es := by
  induction es generalizing s with
  | nil => exact trivial
  | cons e es ih => exact ⟨⟨steps.1, steps'.1⟩, ih steps.2 steps'.2⟩

lemma Guarded.imp (keep : ∀ s e, I s → ok s e → I (step s e))
    (gives : ∀ s e, I s → ok s e → ok' s e)
    (steps : Guarded step ok s es) (start : I s) : Guarded step ok' s es := by
  induction es generalizing s with
  | nil => exact trivial
  | cons e es ih => exact ⟨gives s e start steps.1, ih steps.2 (keep s e start steps.1)⟩

lemma throughout_guarded (keep : ∀ s e, I s → ok s e → I (step s e))
    (gives : ∀ s, I s → P s) (start : I s)
    (steps : Guarded step ok s es) : Throughout step P s es := by
  induction es generalizing s with
  | nil => exact gives s start
  | cons e es ih => exact ⟨gives s start, ih (keep s e start steps.1) steps.2⟩

lemma throughout_invariant (keep : ∀ s e, I s → I (step s e)) (gives : ∀ s, I s → P s)
    (start : I s) (es : List ε) : Throughout step P s es := by
  induction es generalizing s with
  | nil => exact gives s start
  | cons e es ih => exact ⟨gives s start, ih (keep s e start)⟩

lemma Throughout.first (holds : Throughout step P s es) : P s := by
  cases es with
  | nil => exact holds
  | cons _ _ => exact holds.1

lemma run_view {β : Type*} (step : σ → ε → σ) (view : σ → β)
    (keep : ∀ s, ∀ e ∈ es, I s → I (step s e) ∧ view (step s e) = view s) (start : I s) :
    I (run step s es) ∧ view (run step s es) = view s := by
  induction es generalizing s with
  | nil => exact ⟨start, rfl⟩
  | cons e es ih =>
    obtain ⟨kept, same⟩ := keep s e (by simp) start
    obtain ⟨after, rest⟩ := ih (fun s e he => keep s e (mem_cons_of_mem _ he)) kept
    exact ⟨after, rest.trans same⟩

/-- A view of the state that a run changes with one of its inputs only: what the run makes of it is
what that one step makes of it. -/
theorem run_visit {β : Type*} (step : σ → ε → σ) (view : σ → β) {k : ε}
    (once : es.Nodup) (mem : k ∈ es) (keep : ∀ s, ∀ e ∈ es, I s → I (step s e))
    (other : ∀ s, ∀ e ∈ es, e ≠ k → I s → view (step s e) = view s) (start : I s) :
    ∃ s', I s' ∧ view s' = view s ∧ view (run step s es) = view (step s' k) := by
  induction es generalizing s with
  | nil => cases mem
  | cons e es ih =>
    obtain ⟨notLater, once⟩ := nodup_cons.mp once
    by_cases here : e = k
    · subst here
      refine ⟨s, start, rfl,
        (run_view (I := I) step view (fun s j hj held => ?_) (keep s e (by simp) start)).2⟩
      have away : j ≠ e := fun same => notLater (same ▸ hj)
      exact ⟨keep s j (mem_cons_of_mem _ hj) held,
        other s j (mem_cons_of_mem _ hj) away held⟩
    · obtain ⟨s', held, same, last⟩ := ih once ((mem_cons.mp mem).resolve_left (Ne.symm here))
        (fun s j hj => keep s j (mem_cons_of_mem _ hj))
        (fun s j hj => other s j (mem_cons_of_mem _ hj)) (keep s e (by simp) start)
      exact ⟨s', held, same.trans (other s e (by simp) here start), last⟩

lemma iterate_guarded {f : σ → σ} {ok : σ → Prop} (keep : ∀ s, I s → ok s → I (f s))
    (start : I s) (n : ℕ) (allowed : ∀ m < n, ok (f^[m] s)) : I (f^[n] s) := by
  induction n with
  | zero => exact start
  | succ n ih =>
    rw [Function.iterate_succ_apply']
    exact keep _ (ih fun m earlier => allowed m (Nat.lt_succ_of_lt earlier))
      (allowed n (Nat.lt_succ_self n))

/-- When a step outside `ok` breaks `P` at once, the guarded runs are exactly
the runs along which `P` holds. The invariant may speak of the inputs that are
still to come. -/
theorem throughout_iff_guarded_ahead {I : σ → List ε → Prop}
    (keep : ∀ s e es, I s (e :: es) → ok s e → I (step s e) es) (gives : ∀ s es, I s es → P s)
    (breaks : ∀ s e es, I s (e :: es) → ¬ ok s e → ¬ P (step s e)) (start : I s es) :
    Throughout step P s es ↔ Guarded step ok s es := by
  induction es generalizing s with
  | nil => exact ⟨fun _ => trivial, fun _ => gives s [] start⟩
  | cons e es ih =>
    constructor
    · rintro ⟨_, rest⟩
      have allowed : ok s e := by
        by_contra bad
        exact breaks s e es start bad rest.first
      exact ⟨allowed, (ih (keep s e es start allowed)).mp rest⟩
    · rintro ⟨allowed, steps⟩
      exact ⟨gives s _ start, (ih (keep s e es start allowed)).mpr steps⟩

lemma throughout_iff_guarded (keep : ∀ s e, I s → ok s e → I (step s e))
    (gives : ∀ s, I s → P s) (breaks : ∀ s e, I s → ¬ ok s e → ¬ P (step s e)) (start : I s)
    (es : List ε) : Throughout step P s es ↔ Guarded step ok s es :=
  throughout_iff_guarded_ahead (I := fun s _ => I s) (fun s e _ => keep s e)
    (fun s _ => gives s) (fun s e _ => breaks s e) start

/-! ## Answers -/

section Answers

variable {τ β : Type*} {answer : σ → ε → β × σ} {answer' : τ → ε → β × τ} {R : σ → τ → Prop}

def answers (answer : σ → ε → β × σ) : σ → List ε → List β
  | _, [] => []
  | s, e :: es => (answer s e).1 :: answers answer (answer s e).2 es

/-- Two systems that answer alike from related states, and stay related, answer alike along
every run. -/
theorem answers_eq (simulates : ∀ s t e, R s t →
      (answer s e).1 = (answer' t e).1 ∧ R (answer s e).2 (answer' t e).2)
    {s : σ} {t : τ} (related : R s t) (es : List ε) :
    answers answer s es = answers answer' t es := by
  induction es generalizing s t with
  | nil => rfl
  | cons e es ih =>
    obtain ⟨same, next⟩ := simulates s t e related
    rw [answers, answers, same, ih next]

end Answers

/-! ## Counting changes -/

section Changes

variable (step) (f : σ → Bool)

/-- How often the observation `f` changes along a run. -/
def changes : σ → List ε → Nat
  | _, [] => 0
  | s, e :: es => (if f (step s e) = f s then 0 else 1) + changes (step s e) es

variable {step f} {J : σ → Prop}

lemma changes_latched (keep : ∀ s e, J s → J (step s e)) (on : ∀ s, J s → f s = true)
    {s : σ} (latched : J s) (es : List ε) : changes step f s es = 0 := by
  induction es generalizing s with
  | nil => rfl
  | cons e es ih =>
    rw [changes, ih (keep s e latched), on _ (keep s e latched), on s latched]
    rfl

lemma changes_le_two (keep : ∀ s e, J s → J (step s e)) (on : ∀ s, J s → f s = true)
    (rise : ∀ s e, f s = false → f (step s e) = true → J (step s e)) (s : σ) (es : List ε) :
    changes step f s es ≤ if f s = true then 2 else 1 := by
  induction es generalizing s with
  | nil => simp [changes]
  | cons e es ih =>
    have rest := ih (step s e)
    rw [changes]
    cases before : f s <;> cases after : f (step s e)
    · simpa [after] using rest
    · simp [changes_latched keep on (rise s e before after)]
    · simp only [after, Bool.false_eq_true, if_false] at rest
      simp only [Bool.false_eq_true, if_false, if_true]
      omega
    · simpa [after] using rest

end Changes

end Runs

/-!
## Two machines of different pace

A coarse machine `f` and a fine machine `g` are deterministic, and a relation ties their
states together. Either both take a step, or the fine one takes a step alone and comes
closer to the coarse one. Then each passes through whatever the other passes through.
-/

namespace Stutter

open Function

universe u v

variable {α : Type u} {β : Type v}

structure Paces (f : α → α) (g : β → β) (R : α → β → Prop) (lag : α → β → ℕ) : Prop where
  step : ∀ a b, R a b → R (f a) (g b) ∨ (R a (g b) ∧ lag a (g b) < lag a b)

namespace Paces

variable {f : α → α} {g : β → β} {R : α → β → Prop} {lag : α → β → ℕ}

section

variable (paces : Paces f g R lag)

include paces

variable {a : α} {b : β}

lemma of_fine (start : R a b) (m : ℕ) : ∃ n, R (f^[n] a) (g^[m] b) := by
  induction m with
  | zero => exact ⟨0, start⟩
  | succ m ih =>
    obtain ⟨n, related⟩ := ih
    rw [iterate_succ_apply' g]
    rcases paces.step _ _ related with both | ⟨alone, -⟩
    · exact ⟨n + 1, by rwa [iterate_succ_apply' f]⟩
    · exact ⟨n, alone⟩

lemma catches_up (related : R a b) : ∃ m, R (f a) (g^[m] b) := by
  suffices bounded : ∀ k b, lag a b ≤ k → R a b → ∃ m, R (f a) (g^[m] b) from
    bounded (lag a b) b (Nat.le_refl _) related
  intro k
  induction k with
  | zero =>
    intro b small related
    rcases paces.step _ _ related with both | ⟨-, closer⟩
    · exact ⟨1, both⟩
    · omega
  | succ k ih =>
    intro b small related
    rcases paces.step _ _ related with both | ⟨alone, closer⟩
    · exact ⟨1, both⟩
    · obtain ⟨m, later⟩ := ih (g b) (by omega) alone
      exact ⟨m + 1, later⟩

lemma of_coarse (start : R a b) (n : ℕ) : ∃ m, R (f^[n] a) (g^[m] b) := by
  induction n with
  | zero => exact ⟨0, start⟩
  | succ n ih =>
    obtain ⟨m, related⟩ := ih
    obtain ⟨k, later⟩ := paces.catches_up related
    exact ⟨k + m, by rwa [iterate_succ_apply' f, iterate_add_apply g]⟩

lemma seen_iff {P : α → Prop} {Q : β → Prop} (agree : ∀ a b, R a b → (P a ↔ Q b)) (start : R a b) :
    (∃ n, P (f^[n] a)) ↔ ∃ m, Q (g^[m] b) := by
  constructor
  · rintro ⟨n, seen⟩
    obtain ⟨m, related⟩ := paces.of_coarse start n
    exact ⟨m, (agree _ _ related).mp seen⟩
  · rintro ⟨m, seen⟩
    obtain ⟨n, related⟩ := paces.of_fine start m
    exact ⟨n, (agree _ _ related).mpr seen⟩

end

end Paces

end Stutter
