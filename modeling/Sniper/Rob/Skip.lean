import Sniper.Lib.Runs
import Sniper.Rob.Stages

/-!
# Skipped cycles

`execute` jumps from one event to the next. When it skips cycles, nothing was issued or
committed in the last one, and the front end is stalled or the window is full; until the
event that was named none of this changes. So the cycles in between do nothing but take
more uops into the buffer, and a run that skips them gives every uop the same times as one
that does not.
-/

namespace Sniper.Rob

open List

variable {μ σ : Type} {core : Core μ σ} {s : RobTimer μ σ}

/-! ## What is observed -/

inductive Stage where
  | dispatch
  | issue
  | commit
  deriving DecidableEq, Repr

def RobTimer.entryOf (s : RobTimer μ σ) (number : ℕ) : Option RobEntry :=
  (s.traced.map Prod.fst ++ s.rob).find? (·.number = number)

/-- When a uop went through a stage; `⊤` as long as it has not. -/
def RobTimer.timeOf (s : RobTimer μ σ) (number : ℕ) : Stage → Time
  | .dispatch => ((s.entryOf number).bind (·.dispatched)).elim ⊤ (↑)
  | .issue => (s.entryOf number).elim ⊤ (·.issued)
  | .commit => (s.traced.find? (·.1.number = number)).elim ⊤ (↑·.2)

/-! ## Quiet times -/

def RobTimer.atTime (s : RobTimer μ σ) (now : ℕ) : RobTimer μ σ := { s with now := now }

def RobEntry.nextEvent (entry : RobEntry) : Time :=
  if entry.done ≠ ⊤ then entry.done else entry.ready

def EndsAtFirst (core : Core μ σ) : Prop := core.inorder = true ∨ core.dispatchWidth = 0

structure Quiet (core : Core μ σ) (s : RobTimer μ σ) (horizon : ℕ) : Prop where
  frontend : s.numInRob = core.windowSize ∨ ↑horizon ≤ s.frontendStalledUntil
  entries : ∀ i entry, i < s.numInRob → s.rob[i]? = some entry →
    (EndsAtFirst core → ∀ k other, k < i → s.rob[k]? = some other → other.done ≠ ⊤) →
    ↑horizon ≤ entry.nextEvent

open RobEntry

lemma visit_nextEvent_le (core : Core μ σ) (i : ℕ) (entry : RobEntry) (scan : Scan)
    (s : RobTimer μ σ) :
    (visit core i entry scan s).2.1.nextEvent ≤ min scan.nextEvent entry.nextEvent := by
  have turn := visit_turn core i entry scan s
  generalize visit core i entry scan s = result at turn ⊢
  cases turn with
  | passed finished => simp [nextEvent, finished]
  | stopped waiting | blocked waiting | refused waiting => simp [nextEvent, waiting, Scan.seen]
  | fenced waiting => simp [nextEvent, waiting, Scan.seen, Scan.fenced]
  | granted waiting =>
    simp only [nextEvent, waiting, issued, Scan.seen]
    exact min_le_left _ _

variable {entry : RobEntry}

lemma visit_early (i : ℕ) (scan : Scan)
    (early : ↑s.now < entry.nextEvent) (noContention : core.contention = none) :
    ∃ goOn scan', visit core i entry scan s = (goOn, scan', s) ∧ scan'.numIssued = scan.numIssued ∧
      (goOn = false ↔ entry.done = ⊤ ∧
        (core.inorder = true ∨ scan.numIssued = core.dispatchWidth)) := by
  have turn := visit_turn core i entry scan s
  generalize visit core i entry scan s = result at turn ⊢
  have holds : entry.done = ⊤ → verdict core s (scan.seen entry) entry = .hold := by
    intro waiting
    have unready : ↑s.now < entry.ready := by rwa [nextEvent, if_neg (not_not.mpr waiting)] at early
    rw [verdict, if_pos unready]
  cases turn with
  | passed finished => exact ⟨_, _, rfl, rfl, by simp [finished]⟩
  | stopped waiting decided | fenced waiting decided | granted waiting decided
  | refused waiting decided => simp [holds waiting] at decided
  | blocked waiting decided =>
    refine ⟨_, _, rfl, rfl, ?_⟩
    have full : exhausted core (held core entry (scan.seen entry) s).2.1 s =
        decide (scan.numIssued = core.dispatchWidth) := by
      rw [exhausted, noContention]
      rfl
    show (!core.inorder && !exhausted core (held core entry (scan.seen entry) s).2.1 s) = false ↔ _
    rw [full]
    cases core.inorder <;> simp [waiting]

lemma issueLoop_le (fuel i : ℕ) (scan : Scan) :
    (issueLoop core fuel i scan s).2 ≤ scan.nextEvent := by
  induction fuel generalizing i scan s with
  | zero => exact le_rfl
  | succ fuel ih =>
    rw [issueLoop]
    split
    · exact le_rfl
    next entry _ =>
    dsimp only
    split
    · exact (ih _ _).trans ((visit_nextEvent_le core i entry scan s).trans (min_le_left _ _))
    · exact (visit_nextEvent_le core i entry scan s).trans (min_le_left _ _)

section

variable (noContention : core.contention = none)

include noContention

variable {scan : Scan}

/-- A scan that finds nothing due changes nothing, and no entry it visits is due earlier. -/
lemma issueLoop_quiet (fuel i : ℕ)
    (unissued : scan.numIssued = 0) (early : ↑s.now < (issueLoop core fuel i scan s).2) :
    (issueLoop core fuel i scan s).1 = s ∧
      ∀ k entry, i ≤ k → k < i + fuel → s.rob[k]? = some entry →
        (EndsAtFirst core → ∀ l other, i ≤ l → l < k → s.rob[l]? = some other → other.done ≠ ⊤) →
        (issueLoop core fuel i scan s).2 ≤ entry.nextEvent := by
  induction fuel generalizing i scan with
  | zero => exact ⟨rfl, fun k entry low high => by omega⟩
  | succ fuel ih =>
    cases found : s.rob[i]? with
    | none =>
      refine ⟨by simp only [issueLoop, found], fun k entry low _ there => ?_⟩
      have := getElem?_eq_none_iff.mp found
      have := (List.getElem?_eq_some_iff.mp there).1
      omega
    | some entry =>
      have unfolded : issueLoop core (fuel + 1) i scan s = if (visit core i entry scan s).1 then
            issueLoop core fuel (i + 1) (visit core i entry scan s).2.1
              (visit core i entry scan s).2.2
          else ((visit core i entry scan s).2.2, (visit core i entry scan s).2.1.nextEvent) := by
        rw [issueLoop, found]
      have bound : (issueLoop core (fuel + 1) i scan s).2 ≤ entry.nextEvent := by
        refine le_trans ?_ ((visit_nextEvent_le core i entry scan s).trans (min_le_right _ _))
        rw [unfolded]
        split
        · exact issueLoop_le _ _ _
        · exact le_rfl
      obtain ⟨goOn, scan', eq, same, ended⟩ :=
        visit_early i scan (early.trans_le bound) noContention
      rw [eq] at unfolded
      cases goOn with
      | true =>
        rw [unfolded] at early ⊢
        obtain ⟨kept, later⟩ := ih (i + 1) (same.trans unissued) early
        refine ⟨kept, fun k other low high there blocked => ?_⟩
        rcases Nat.eq_or_lt_of_le low with rfl | beyond
        · rw [found] at there
          cases there
          rw [← unfolded]
          exact bound
        · exact later k other beyond (by omega) there
            fun ends l _ from_ => blocked ends l _ (by omega)
      | false =>
        simp only [if_false, Bool.false_eq_true] at unfolded
        obtain ⟨waiting, first⟩ := ended.mp rfl
        refine ⟨by rw [unfolded], fun k other low high there blocked => ?_⟩
        rcases Nat.eq_or_lt_of_le low with rfl | beyond
        · rw [found] at there
          cases there
          exact bound
        · have ends : EndsAtFirst core := first.imp id fun full => full.symm.trans unissued
          exact absurd waiting (blocked ends i entry le_rfl beyond found)

lemma issueLoop_idle (fuel i : ℕ) (unissued : scan.numIssued = 0)
    (early : ∀ k entry, i ≤ k → k < i + fuel → s.rob[k]? = some entry →
      (EndsAtFirst core → ∀ l other, i ≤ l → l < k → s.rob[l]? = some other → other.done ≠ ⊤) →
      ↑s.now < entry.nextEvent) : (issueLoop core fuel i scan s).1 = s := by
  induction fuel generalizing i scan with
  | zero => rfl
  | succ fuel ih =>
    cases found : s.rob[i]? with
    | none => simp only [issueLoop, found]
    | some entry =>
      obtain ⟨goOn, scan', eq, same, ended⟩ := visit_early i scan
        (early i entry le_rfl (by omega) found fun _ l _ low high => by omega) noContention
      simp only [issueLoop, found, eq]
      cases goOn with
      | false => rfl
      | true =>
        refine ih (i + 1) (same.trans unissued) fun k other low high there blocked => ?_
        refine early k other (by omega) (by omega) there fun ends l before from_ upto at_ => ?_
        rcases Nat.eq_or_lt_of_le from_ with rfl | beyond
        · rw [found] at at_
          cases at_
          exact fun waiting => absurd
            (ended.mpr ⟨waiting, ends.imp id fun none => unissued.trans none.symm⟩) (by decide)
        · exact blocked ends l before beyond upto at_

lemma doIssue_eq (s : RobTimer μ σ) : doIssue core s = issueLoop core s.numInRob 0 .start s := by
  rw [doIssue, noContention]
  rfl

end

lemma commitLoop_idle {fuel numCommitted : ℕ}
    (early : ∀ entry, s.rob.head? = some entry → ↑s.now < entry.done) :
    commitLoop core fuel numCommitted s = s := by
  cases fuel with
  | zero => rfl
  | succ fuel =>
    rw [commitLoop]
    split
    · rfl
    · next entry first => rw [if_neg (not_le.mpr (early entry first))]

variable {horizon : ℕ}

lemma Quiet.front (quiet : Quiet core s horizon) (fresh : Fresh s)
    (first : s.rob.head? = some entry) : ↑horizon ≤ entry.done := by
  rw [head?_eq_getElem?] at first
  by_cases waiting : entry.done = ⊤
  · rw [waiting]
    exact le_top
  · have inside : 0 < s.numInRob := by
      by_contra empty
      exact waiting (fresh.waiting 0 entry (by omega) first)
    have := quiet.entries 0 entry inside first fun _ k _ before => by omega
    simpa [nextEvent, waiting] using this

lemma Quiet.stages (quiet : Quiet core s horizon) (fresh : Fresh s)
    (noContention : core.contention = none) (early : s.now < horizon) : (stages core s).1 = s := by
  have before : (↑s.now : Time) < ↑horizon := WithTop.coe_lt_coe.mpr early
  have dispatch : (doDispatch core s).1 = s := by
    rw [doDispatch]
    rcases quiet.frontend with full | stalled
    · simp [full, dispatchLoop]
    · rw [if_neg (not_le.mpr (before.trans_le stalled))]
  have issue : (doIssue core s).1 = s := by
    rw [doIssue_eq noContention]
    refine issueLoop_idle noContention _ 0 rfl fun k entry _ inside there blocked => ?_
    exact before.trans_le (quiet.entries k entry (by omega) there
      fun ends l other upto => blocked ends l other (by omega) upto)
  have commit : (doCommit core s).1 = s :=
    commitLoop_idle fun entry first => before.trans_le (quiet.front fresh first)
  simp only [Rob.stages, dispatch, issue, commit]

lemma doDispatch_event (core : Core μ σ) (s : RobTimer μ σ) :
    (doDispatch core s).1.numInRob = core.windowSize ∨
      (doDispatch core s).2 ≤ (doDispatch core s).1.frontendStalledUntil := by
  rw [doDispatch]
  generalize (if s.frontendStalledUntil ≤ ↑s.now then
    dispatchLoop core (core.windowSize - s.numInRob) 0 ⊤ s else (s, ⊤)) = result
  dsimp only
  split
  · next full => exact .inl full
  · exact .inr (min_le_left _ _)

lemma stages_quiet (fresh : Fresh s) (noContention : core.contention = none)
    (future : s.now < horizon) (named : ↑horizon ≤ (stages core s).2) :
    Quiet core (stages core s).1 horizon := by
  have now := doDispatch_now core s
  have freshD : Fresh (doDispatch core s).1 := fresh.doDispatch
  obtain ⟨byDispatch, byIssue, -⟩ : ↑horizon ≤ (doDispatch core s).2 ∧
      ↑horizon ≤ (doIssue core (doDispatch core s).1).2 ∧
      ↑horizon ≤ (doCommit core (doIssue core (doDispatch core s).1).1).2 := by
    simpa only [stages, le_min_iff] using named
  have frontend := (doDispatch_event core s).imp_right byDispatch.trans
  rw [stages]
  dsimp only
  generalize (doDispatch core s).1 = d at *
  have before : (↑d.now : Time) < ↑horizon := by rw [now]; exact WithTop.coe_lt_coe.mpr future
  rw [doIssue_eq noContention] at byIssue ⊢
  obtain ⟨kept, bounds⟩ := issueLoop_quiet noContention d.numInRob 0 rfl (before.trans_le byIssue)
  have quiet : Quiet core d horizon := by
    refine ⟨frontend, fun i entry inside there blocked => byIssue.trans ?_⟩
    exact bounds i entry (by omega) (by omega) there
      fun ends l other _ upto => blocked ends l other upto
  have commit : (doCommit core d).1 = d :=
    commitLoop_idle fun entry first => before.trans_le (quiet.front freshD first)
  rw [kept, commit]
  exact quiet

/-! ## Taking uops in quiet times -/

lemma enqueue_atTime (core : Core μ σ) (s : RobTimer μ σ) (t : ℕ) (uop : DynamicMicroOp) :
    enqueue core (s.atTime t) uop = (enqueue core s uop).map (·.atTime t) := by
  rw [enqueue, enqueue]
  split
  · rfl
  · rw [Option.map_map]
    rfl

lemma foldlM_enqueue_atTime (core : Core μ σ) (s : RobTimer μ σ) (t : ℕ)
    (insts : List DynamicMicroOp) :
    insts.foldlM (enqueue core) (s.atTime t) =
      (insts.foldlM (enqueue core) s).map (·.atTime t) := by
  induction insts generalizing s with
  | nil => rfl
  | cons uop insts ih =>
    rw [foldlM_cons, foldlM_cons, enqueue_atTime]
    cases enqueue core s uop with
    | none => rfl
    | some s' => exact ih s'

lemma Quiet.enqueue (quiet : Quiet core s horizon) (fresh : Fresh s)
    {s' : RobTimer μ σ} {uop : DynamicMicroOp} (ran : enqueue core s uop = some s') :
    Quiet core s' horizon := by
  rcases enqueue_appends ran with rfl | ⟨linked, same, waiting, rfl⟩
  · exact quiet
  have length : linked.rob.length = s.rob.length := by simpa using congrArg length same
  have within := fresh.within
  refine ⟨quiet.frontend, fun i entry inside there blocked => ?_⟩
  have inside : i < s.numInRob := inside
  rw [getElem?_append_left (by omega)] at there
  obtain ⟨old, found, eq⟩ := getElem?_of_unlinked same there
  have event := congrArg nextEvent eq
  refine le_of_le_of_eq ?_ event
  refine quiet.entries i old inside found fun ends k other upto at_ => ?_
  obtain ⟨new, found', eq'⟩ := getElem?_of_unlinked same.symm at_
  have done := congrArg RobEntry.done eq'
  refine done.symm.trans_ne (blocked ends k new upto ?_)
  rw [getElem?_append_left (by omega)]
  exact found'

/-! ## The two runs -/

def Thread.atTime (thread : Thread μ σ) (now : ℕ) : Thread μ σ :=
  { thread with timer := thread.timer.atTime now }

/-- The thread may be taken back to `now`: nothing happens from then on. -/
structure Reaches (core : Core μ σ) (now : ℕ) (thread : Thread μ σ) : Prop where
  fresh : Fresh thread.timer
  behind : now ≤ thread.timer.now
  quiet : now < thread.timer.now → Quiet core thread.timer thread.timer.now

open Thread

lemma simulate_atTime (core : Core μ σ) (thread : Thread μ σ) (now : ℕ) :
    (thread.atTime now).simulate core = (thread.simulate core).atTime now := by
  obtain ⟨timer, pending, failed⟩ := thread
  cases pending with
  | nil => rfl
  | cons insts rest =>
    simp only [simulate, atTime, foldlM_enqueue_atTime]
    cases insts.foldlM (enqueue core) timer <;> rfl

variable {now : ℕ} {thread : Thread μ σ}

lemma Reaches.simulate (reaches : Reaches core now thread) :
    Reaches core now (thread.simulate core) := by
  obtain ⟨fresh, behind, quiet⟩ := reaches
  obtain ⟨timer, pending, failed⟩ := thread
  cases pending with
  | nil => exact ⟨fresh, behind, quiet⟩
  | cons insts rest =>
    simp only [simulate]
    cases ran : insts.foldlM (enqueue core) timer with
    | none => exact ⟨fresh, behind, quiet⟩
    | some later =>
      have kept : Fresh later ∧ later.now = timer.now ∧
          (now < timer.now → Quiet core later timer.now) := by
        refine Fallible.foldlM_keeps (I := fun t : RobTimer μ σ => Fresh t ∧ t.now = timer.now ∧
          (now < timer.now → Quiet core t timer.now)) ?_ ⟨fresh, rfl, quiet⟩ ran
        rintro t uop t' ⟨fresh, clock, quiet⟩ step
        refine ⟨fresh.enqueue step, ?_, fun early => (quiet early).enqueue fresh step⟩
        rcases enqueue_appends step with rfl | ⟨linked, -, -, rfl⟩ <;> exact clock
      obtain ⟨fresh', clock, quiet'⟩ := kept
      rw [← clock] at behind quiet'
      exact ⟨fresh', behind, quiet'⟩

lemma skipTo_le {nextEvent : Time} (skips : now + 1 < skipTo now nextEvent) :
    ↑(skipTo now nextEvent) ≤ nextEvent := by
  rw [skipTo] at skips ⊢
  split at skips
  · next later =>
    obtain ⟨event, rfl⟩ := WithTop.ne_top_iff_exists.mp later.1
    rw [if_pos later, WithTop.untopD_coe]
  · omega

lemma execute_reaches (fresh : Fresh s) (noContention : core.contention = none) :
    executeCycle core s = (execute core s).atTime (s.now + 1) ∧ Fresh (execute core s) ∧
      s.now < (execute core s).now ∧
      (s.now + 1 < (execute core s).now → Quiet core (execute core s) (execute core s).now) := by
  have now := stages_now core s
  have fresh' : Fresh (stages core s).1 := fresh.stages
  refine ⟨?_, ⟨fresh'.within, fresh'.waiting⟩, ?_, fun skips => ?_⟩
  · simp only [executeCycle, execute, RobTimer.atTime, now]
  · simp only [execute, now]
    exact now_lt_skipTo _ _
  · simp only [execute, now] at skips ⊢
    have quiet := stages_quiet fresh noContention (now_lt_skipTo _ _) (skipTo_le skips)
    exact ⟨quiet.frontend, quiet.entries⟩

def Ahead (core : Core μ σ) (skipping stepping : Thread μ σ) : Prop :=
  ∃ now, stepping = skipping.atTime now ∧ Reaches core now skipping

lemma Ahead.both (fresh : Fresh thread.timer) : Ahead core thread thread :=
  ⟨thread.timer.now, rfl, fresh, le_rfl, fun early => absurd early (lt_irrefl _)⟩

lemma steps_pace (noContention : core.contention = none) :
    Stutter.Paces (Thread.step core (execute core)) (Thread.step core (executeCycle core))
      (Ahead core) (fun skipping stepping => skipping.timer.now - stepping.timer.now) where
  step := by
    rintro thread - ⟨now, rfl, reaches⟩
    cases running : thread.failed with
    | true =>
      have running' : (thread.atTime now).failed = true := running
      rw [step_of_failed running, step_of_failed running']
      exact .inl ⟨now, rfl, reaches⟩
    | false =>
      have running' : (thread.atTime now).failed = false := running
      cases needs' : needsUops core (thread.atTime now).timer with
      | true =>
        -- the front end is not stalled at the earlier time, so neither is it at the later one
        have needs : needsUops core thread.timer = true := by
          simp only [needsUops, decide_eq_true_eq] at needs' ⊢
          exact ⟨needs'.1.trans (WithTop.coe_le_coe.mpr reaches.behind), needs'.2⟩
        rw [step_of_needs running needs, step_of_needs running' needs', simulate_atTime]
        exact .inl ⟨now, rfl, reaches.simulate⟩
      | false =>
        rw [step_of_cycle running' needs']
        rcases Nat.eq_or_lt_of_le reaches.behind with rfl | early
        · rw [step_of_cycle running needs']
          obtain ⟨same, fresh, later, quiet⟩ := execute_reaches reaches.fresh noContention
          refine .inl ⟨thread.timer.now + 1, ?_, fresh, later, quiet⟩
          exact congrArg (fun timer => { thread with timer := timer }) same
        · have quiet : Quiet core (thread.timer.atTime now) thread.timer.now :=
            ⟨(reaches.quiet early).frontend, (reaches.quiet early).entries⟩
          have fresh : Fresh (thread.timer.atTime now) :=
            ⟨reaches.fresh.within, reaches.fresh.waiting⟩
          have idle : executeCycle core (thread.atTime now).timer =
              thread.timer.atTime (now + 1) := by
            rw [executeCycle, atTime, quiet.stages fresh noContention early]
            rfl
          rw [idle]
          refine .inr ⟨⟨now + 1, rfl, reaches.fresh, early, fun _ => reaches.quiet early⟩, ?_⟩
          simp only [atTime, RobTimer.atTime]
          omega

lemma Ahead.timeOf {skipping stepping : Thread μ σ} (ahead : Ahead core skipping stepping)
    (number : ℕ) (stage : Stage) :
    skipping.timer.timeOf number stage = stepping.timer.timeOf number stage := by
  obtain ⟨now, rfl, -⟩ := ahead
  cases stage <;> rfl

/-- Whatever the uops, a uop is dispatched, issued or committed at a time in the run that
skips cycles exactly when it is in the run that goes through every one. -/
theorem skipping_exact (core : Core μ σ) (noContention : core.contention = none) (memory : μ)
    (contention : σ) (calls : List (List DynamicMicroOp)) (number : ℕ) (stage : Stage) (time : ℕ) :
    (∃ n, ((Thread.step core (execute core))^[n]
        (Thread.start core memory contention calls)).timer.timeOf number stage = ↑time) ↔
      ∃ n, ((Thread.step core (executeCycle core))^[n]
        (Thread.start core memory contention calls)).timer.timeOf number stage = ↑time := by
  have empty : Fresh (RobTimer.create core memory contention) := ⟨le_rfl, by simp [RobTimer.create]⟩
  have start : Ahead core (Thread.start core memory contention calls)
      (Thread.start core memory contention calls) := by
    have created : Reaches core 0 ⟨RobTimer.create core memory contention, calls, false⟩ :=
      ⟨empty, le_rfl, fun early => absurd early (lt_irrefl 0)⟩
    exact Ahead.both created.simulate.fresh
  refine (steps_pace noContention).seen_iff
    (P := fun thread => thread.timer.timeOf number stage = ↑time)
    (Q := fun thread => thread.timer.timeOf number stage = ↑time) ?_ start
  intro skipping stepping ahead
  rw [ahead.timeOf]

def narrowCore : Core Unit Unit := plainCore 1 4 1

def loadThenBranch : List (List DynamicMicroOp) :=
  let load := { MicroOp.makeLoad 0 with destinationRegisters := [1] }
  let branch := { MicroOp.makeExecute 0 0 true with sourceRegisters := [1] }
  [[.ofMicroOp load 64 10],
    [{ DynamicMicroOp.ofMicroOp branch 0 1 with branchMispredicted := true }],
    [.ofMicroOp load 128 10], [.ofMicroOp load 192 10]]

/-- The branch commits in period 13, and so it does when no cycle is skipped. -/
theorem loadThenBranch_commits : narrowCore.contention = none ∧
    ∃ n, ((Thread.step narrowCore (executeCycle narrowCore))^[n]
      (Thread.start narrowCore () () loadThenBranch)).timer.timeOf 1 .commit = ↑(13 : ℕ) :=
  ⟨rfl, (skipping_exact narrowCore rfl () () loadThenBranch 1 .commit 13).mp ⟨8, by decide +kernel⟩⟩

end Sniper.Rob
