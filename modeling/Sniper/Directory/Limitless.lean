import Mathlib.Data.Fintype.Card
import Sniper.Lib.Runs

/-!
# Directory entries with a software trap

The hardware of a limitless directory has room for some sharers, and software keeps the others, at
the cost of a trap. `addSharer` enables the trap when the size of the container of sharers equals
the number that the hardware has room for. This size is the number of cores, not of sharers.
-/

namespace Sniper.Directory.Limitless

open Runs

/-- `m_sharers` is a vector or a bitset with room for `n` cores. -/
structure DirectoryEntryLimitless (n : ℕ) where
  sharers : Finset (Fin n)
  softwareTrapEnabled : Bool
  softwareTrapPenalty : ℕ

variable {n : ℕ}

namespace DirectoryEntryLimitless

def create (softwareTrapPenalty : ℕ) : DirectoryEntryLimitless n := ⟨∅, false, softwareTrapPenalty⟩

def getLatency (e : DirectoryEntryLimitless n) : ℕ :=
  if e.softwareTrapEnabled = true then e.softwareTrapPenalty else 0

def addSharer (sharer : Fin n) (maxHwSharers : ℕ) (e : DirectoryEntryLimitless n) :
    Option (DirectoryEntryLimitless n) :=
  if sharer ∈ e.sharers then none
  else some { e with
    softwareTrapEnabled := if n = maxHwSharers then true else e.softwareTrapEnabled
    sharers := insert sharer e.sharers }

def removeSharer (sharer : Fin n) (e : DirectoryEntryLimitless n) :
    Option (DirectoryEntryLimitless n) :=
  if sharer ∈ e.sharers then some { e with sharers := e.sharers.erase sharer } else none

end DirectoryEntryLimitless

open DirectoryEntryLimitless

inductive Call (n : ℕ) where
  | addSharer (sharer : Fin n)
  | removeSharer (sharer : Fin n)
  deriving DecidableEq

/-- A failed assertion ends the run. -/
def step (maxHwSharers : ℕ) (state : Option (DirectoryEntryLimitless n)) :
    Call n → Option (DirectoryEntryLimitless n)
  | .addSharer sharer => state.bind (addSharer sharer maxHwSharers)
  | .removeSharer sharer => state.bind (removeSharer sharer)

def Fits (maxHwSharers : ℕ) (state : Option (DirectoryEntryLimitless n)) : Prop :=
  ∀ e ∈ state, e.sharers.card ≤ maxHwSharers

/-- There were never more sharers than the hardware has room for. -/
def AlwaysFits (maxHwSharers penalty : ℕ) (calls : List (Call n)) : Prop :=
  Throughout (step maxHwSharers) (Fits maxHwSharers) (some (create penalty)) calls

lemma alwaysFits_size (penalty : ℕ) (calls : List (Call n)) : AlwaysFits n penalty calls := by
  refine throughout_invariant (I := fun _ => True) (fun _ _ _ => trivial) ?_ trivial calls
  intro state _ e _
  exact (Finset.card_le_univ e.sharers).trans (Fintype.card_fin n).le

lemma run_none (maxHwSharers : ℕ) (calls : List (Call n)) :
    run (step maxHwSharers) none calls = none :=
  run_invariant (I := (· = none)) (by rintro _ (_ | _) rfl <;> rfl) rfl calls

lemma trap_of_run {maxHwSharers : ℕ} {calls : List (Call n)} {start e : DirectoryEntryLimitless n}
    (ran : run (step maxHwSharers) (some start) calls = some e) :
    e.softwareTrapPenalty = start.softwareTrapPenalty ∧
      (e.softwareTrapEnabled = true ↔ start.softwareTrapEnabled = true ∨
        (n = maxHwSharers ∧ ∃ sharer, Call.addSharer sharer ∈ calls)) := by
  induction calls generalizing start with
  | nil =>
    cases ran
    simp
  | cons call calls ih =>
    rw [run_cons] at ran
    cases stepped : step maxHwSharers (some start) call with
    | none =>
      rw [stepped, run_none] at ran
      cases ran
    | some next =>
      rw [stepped] at ran
      obtain ⟨penalty, enabled⟩ := ih ran
      cases call with
      | addSharer sharer =>
        obtain ⟨-, ⟨⟩⟩ := Option.ite_none_left_eq_some.mp stepped
        refine ⟨penalty, enabled.trans ?_⟩
        by_cases size : n = maxHwSharers <;> simp [size]
      | removeSharer sharer =>
        obtain ⟨-, ⟨⟩⟩ := Option.ite_none_right_eq_some.mp stepped
        refine ⟨penalty, enabled.trans ?_⟩
        simp

/-- With a penalty, the latency is right exactly when there were never too many sharers and, if the
hardware has room for as many as the container, nobody was added. -/
theorem latency_trap_iff (maxHwSharers penalty : ℕ) (calls : List (Call n))
    (e : DirectoryEntryLimitless n)
    (ran : run (step maxHwSharers) (some (create penalty)) calls = some e) :
    (e.getLatency = penalty ↔ ¬ AlwaysFits maxHwSharers penalty calls) ↔
      if penalty = 0 then ¬ AlwaysFits maxHwSharers penalty calls
      else AlwaysFits maxHwSharers penalty calls ∧
        (n = maxHwSharers → ∀ sharer, Call.addSharer sharer ∉ calls) := by
  obtain ⟨same, enabled⟩ := trap_of_run ran
  have latency : e.getLatency = penalty ↔ penalty = 0 ∨
      (n = maxHwSharers ∧ ∃ sharer, Call.addSharer sharer ∈ calls) := by
    have trap : e.softwareTrapEnabled = true ↔
        n = maxHwSharers ∧ ∃ sharer, Call.addSharer sharer ∈ calls := by
      simpa [create] using enabled
    rw [getLatency, same, ← trap]
    by_cases on : e.softwareTrapEnabled = true <;> simp [on, create, eq_comm]
  rw [latency]
  by_cases zero : penalty = 0
  · simp [zero]
  · simp only [zero, false_or, if_false]
    constructor
    · intro right
      have fits : AlwaysFits maxHwSharers penalty calls := by
        by_contra exceeded
        obtain ⟨rfl, -⟩ := right.mpr exceeded
        exact exceeded (alwaysFits_size penalty calls)
      exact ⟨fits, fun size sharer mem => right.mp ⟨size, sharer, mem⟩ fits⟩
    · rintro ⟨fits, never⟩
      refine iff_of_false ?_ (not_not.mpr fits)
      rintro ⟨size, sharer, mem⟩
      exact never size sharer mem

theorem oneSharer_latency : ∃ e : DirectoryEntryLimitless 3,
    run (step 1) (some (create 7)) [.addSharer 0] = some e ∧
      (e.getLatency = 7 ↔ ¬ AlwaysFits (n := 3) 1 7 [.addSharer 0]) := by
  refine ⟨_, rfl, (latency_trap_iff 1 7 [.addSharer 0] _ rfl).mpr ⟨?_, by decide⟩⟩
  refine ⟨?_, ?_⟩ <;> rintro _ ⟨⟩ <;> decide

/-- The hardware has room for one of three cores, and two share the line. -/
theorem twoSharers_latency :
    (run (step 1) (some (create 7 : DirectoryEntryLimitless 3))
      [.addSharer 0, .addSharer 1]).map (fun e => (e.getLatency, e.sharers.card)) = some (0, 2) ∧
      ¬ AlwaysFits (n := 3) 1 7 [.addSharer 0, .addSharer 1] :=
  ⟨by decide, fun fits => absurd (fits.2.2 _ rfl) (by decide)⟩

end Sniper.Directory.Limitless
