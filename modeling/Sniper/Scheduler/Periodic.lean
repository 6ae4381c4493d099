import Sniper.Scheduler.Assignment

/-!
# What one call of `periodic` does to a thread

`periodic` reschedules the cores one after the other. A thread that has to leave a core waits from
then on, and a later core might take it. Its time of leaving is set some picoseconds ahead, as many
as the number of the core, so that the thread is not considered again. This makes its score
negative, but a thread with a negative score still is a candidate: it gets the later core unless
another candidate comes before it.
-/

namespace Sniper.Scheduler

open Fallible Sniper.System List Function Option

variable {n : ℕ}

namespace Call

def out (time : ℕ) (call : Call n) : Option ThreadId :=
  if call.Moves time then call.current else none

def into (time : ℕ) (call : Call n) : Option ThreadId :=
  if call.Moves time then call.selected time else none

/-- The state with what this call records, without the calls that are nested in it. -/
def after (time : ℕ) (call : Call n) : Pinned n :=
  if call.Moves time then call.placed time else call.state

def resumed (time : ℕ) (call : Call n) (thread : ThreadId) : Pinned n :=
  let s := call.placed time
  Pinned.setRunnable thread true { s with threads := s.threads.resumeThread thread none time false }

def nested (time : ℕ) (call : Call n) : Option (Call n) :=
  (call.into time).bind fun thread =>
    let s := call.placed time
    if s.threadCore thread = none ∧ s.threads.Stalled thread ∧
        s.threads.stalledReason thread = .unscheduled then
      ((call.resumed time thread).findFreeCoreForThread thread).map fun core =>
        ⟨core, call.resumed time thread⟩
    else none

def calls (time : ℕ) : ℕ → Call n → List (Call n)
  | 0, _ => []
  | depth + 1, call => call :: (call.nested time).elim [] (calls time depth)

end Call

/-- The calls that one core causes in `periodic`. -/
def Pinned.coreCalls (time : ℕ) (s : Pinned n) (core : Fin n) : List (Call n) :=
  if s.delta time > s.quantumLeft core ∨ s.coreThreadRunning core = none then
    Call.calls time (n + 1) ⟨core, s⟩
  else []

/-- The calls in the loop of `periodic`. -/
def Pinned.loopCalls (time : ℕ) : List (Fin n) → Pinned n → List (Call n)
  | [], _ => []
  | core :: cores, s =>
    s.coreCalls time core ++ (s.periodicCore time core).toOption.elim [] (loopCalls time cores)

def Pinned.periodicCalls (time : ℕ) (s : Pinned n) : List (Call n) :=
  s.loopCalls time (List.finRange n)

/-! ## The calls account for the records of all threads -/

inductive Replays (time : ℕ) :
    (ThreadId → ThreadInfo n) → List (Call n) → (ThreadId → ThreadInfo n) → Prop
  | done (infos) : Replays time infos [] infos
  | call {call : Call n} {rest : List (Call n)} {infos : ThreadId → ThreadInfo n}
      (sound : Sound call.state) (later : Replays time (call.after time).threadInfo rest infos) :
      Replays time call.state.threadInfo (call :: rest) infos

section Replays

variable {time depth : ℕ} {call : Call n} {s s' : Pinned n} {thread : ThreadId}

lemma Replays.append {first second third : ThreadId → ThreadInfo n} {calls rest : List (Call n)}
    (before : Replays time first calls second) (later : Replays time second rest third) :
    Replays time first (calls ++ rest) third := by
  induction before with
  | done infos => exact later
  | call sound _ ih => exact .call sound (ih later)

lemma into_of_moves (moves : call.Moves time) : call.into time = call.selected time := if_pos moves

lemma after_of_moves (moves : call.Moves time) : call.after time = call.placed time := if_pos moves

lemma nested_of_stays (stays : ¬ call.Moves time) : call.nested time = none := by
  rw [Call.nested, Call.into, if_neg stays]
  rfl

lemma sound_resumed (sound : Sound call.state) (moves : call.Moves time)
    (new : call.selected time = some thread) : Sound (call.resumed time thread) := by
  have placed := sound_placed sound moves
  have alike : Sound { call.placed time with
      threads := (call.placed time).threads.resumeThread thread none time false } :=
    placed.alike rfl rfl rfl placed.runnable
  refine alike.setRunnable fun _ => ?_
  exact (numThreads_placed call time).symm ▸ created_selected sound new

open Pinned

lemma moveThread_nested {again : ℕ → Fin n → Pinned n → Except Fault (Pinned n)}
    (sound : Sound call.state) (moves : call.Moves time) (new : call.selected time = some thread)
    (moved : (call.placed time).moveThread (threadResumeWith again) thread (some call.core)
      time = .ok s) :
    (call.nested time = none ∧ s.threadInfo = (call.placed time).threadInfo) ∨
      ∃ core inner, call.nested time = some ⟨core, call.resumed time thread⟩ ∧
        again time core (call.resumed time thread) = .ok inner ∧
        s.threadInfo = inner.threadInfo := by
  have created : thread < (call.placed time).numThreads :=
    (numThreads_placed call time).symm ▸ created_selected sound new
  rw [moveThread, findThread_of_lt created] at moved
  obtain ⟨woken, wakes, rfl⟩ := map_eq_ok.mp moved
  rw [Call.nested, into_of_moves moves, new, bind_some]
  split at wakes
  · next unscheduled =>
    rw [if_pos unscheduled]
    change ((call.resumed time thread).findFreeCoreForThread thread).elim
      (Except.ok (call.resumed time thread)) _ = _ at wakes
    cases found : (call.resumed time thread).findFreeCoreForThread thread with
    | none =>
      rw [found] at wakes
      cases wakes
      exact .inl ⟨rfl, rfl⟩
    | some core =>
      rw [found] at wakes
      exact .inr ⟨core, woken, rfl, wakes, rfl⟩
  · next scheduled =>
    rw [if_neg scheduled]
    cases wakes
    exact .inl ⟨rfl, rfl⟩

lemma replays_reschedule (call : Call n) (sound : Sound call.state)
    (ran : call.state.reschedule depth time call.core = .ok s) :
    Replays time call.state.threadInfo (call.calls time depth) s.threadInfo := by
  induction depth generalizing call s with
  | zero => cases ran
  | succ depth ih =>
    refine .call sound ?_
    rw [reschedule] at ran
    by_cases moves : call.Moves time
    · rw [rescheduleWith_moves sound moves] at ran
      obtain ⟨moved, moving, rfl⟩ := map_eq_ok.mp ran
      rw [after_of_moves moves]
      cases new : call.selected time with
      | none =>
        rw [new] at moving
        cases moving
        rw [Call.nested, into_of_moves moves, new]
        exact .done _
      | some thread =>
        rw [new] at moving
        rcases moveThread_nested sound moves new moving with
          ⟨alone, same⟩ | ⟨core, inner, nests, again, same⟩
        · rw [alone]
          exact same ▸ .done _
        · rw [nests]
          exact same ▸ ih ⟨core, call.resumed time thread⟩ (sound_resumed sound moves new) again
    · rw [nested_of_stays moves, Call.after, if_neg moves]
      rcases rescheduleWith_stays _ moves with stays | stays
      · cases stays.symm.trans ran
        exact .done _
      · cases stays.symm.trans ran
        exact .done _

lemma replays_periodicCore {core : Fin n} (sound : Sound s)
    (ran : s.periodicCore time core = .ok s') :
    Replays time s.threadInfo (s.coreCalls time core) s'.threadInfo ∧ Sound s' := by
  rw [periodicCore] at ran
  rw [coreCalls]
  split at ran
  · next due =>
    rw [if_pos due]
    obtain ⟨kept, returned, sound'⟩ := keeps_rescheduleCore sound time core
    cases returned.symm.trans ran
    exact ⟨replays_reschedule ⟨core, s⟩ sound ran, sound'⟩
  · next early =>
    rw [if_neg early]
    cases ran
    exact ⟨.done _, sound.setQuantumLeft core _⟩

lemma replays_periodicLoop {cores : List (Fin n)} (sound : Sound s)
    (ran : s.periodicLoop time cores = .ok s') :
    Replays time s.threadInfo (s.loopCalls time cores) s'.threadInfo := by
  induction cores generalizing s with
  | nil =>
    cases ran
    exact .done _
  | cons core cores ih =>
    obtain ⟨next, here, rest⟩ := bind_eq_ok.mp ran
    obtain ⟨replays, kept⟩ := replays_periodicCore sound here
    rw [loopCalls, here]
    exact replays.append (ih kept rest)

lemma replays_periodic (sound : Sound s) (time : ℕ) : ∃ s', s.periodic time = .ok s' ∧
    Replays time s.threadInfo (s.periodicCalls time) s'.threadInfo := by
  obtain ⟨looped, ran, -⟩ := keeps_periodicLoop sound time (finRange n)
  have replays := replays_periodicLoop sound ran
  refine ⟨{ looped with lastPeriodic := time }, ?_, replays⟩
  rw [periodic, ran]
  rfl

end Replays

/-! ## What a call records -/

section Records

variable {time : ℕ} {call : Call n} {thread : ThreadId}

lemma out_spec (left : call.out time = some thread) :
    call.Moves time ∧ call.current = some thread := by
  rw [Call.out] at left
  split at left
  · next moves => exact ⟨moves, left⟩
  · cases left

lemma into_spec (gets : call.into time = some thread) :
    call.Moves time ∧ call.selected time = some thread := by
  rw [Call.into] at gets
  split at gets
  · next moves => exact ⟨moves, gets⟩
  · cases gets

lemma out_runs (sound : Sound call.state) (left : call.out time = some thread) :
    (call.state.threadInfo thread).coreRunning = some call.core :=
  (sound.inverse call.core thread).mp (out_spec left).2

lemma into_waits (sound : Sound call.state) (gets : call.into time = some thread) :
    (call.state.threadInfo thread).coreRunning = none :=
  selected_waits sound (into_spec gets).1 (into_spec gets).2

lemma elim_update (changed : Option ThreadId) (infos f : ThreadId → ThreadInfo n)
    (thread : ThreadId) :
    changed.elim infos (fun changed => update infos changed (f changed)) thread =
      if changed = some thread then f thread else infos thread := by
  cases changed with
  | none => rfl
  | some changed =>
    by_cases same : changed = thread
    · rw [if_pos (congrArg some same), ← same]
      exact update_self _ _ _
    · rw [if_neg fun equal => same (some.inj equal)]
      exact update_of_ne (Ne.symm same) _ _

lemma threadInfo_vacated (call : Call n) (time : ℕ) (thread : ThreadId) :
    (call.vacated time).threadInfo thread =
      if call.current = some thread then { call.state.threadInfo thread with
        coreRunning := none
        lastScheduledOut := time + 1000 * call.core }
      else call.state.threadInfo thread := by
  refine Eq.trans ?_ (elim_update call.current call.state.threadInfo (fun thread =>
    { call.state.threadInfo thread with
      coreRunning := none
      lastScheduledOut := time + 1000 * call.core }) thread)
  rw [Call.vacated]
  cases call.current <;> rfl

lemma threadInfo_placed (call : Call n) (time : ℕ) (thread : ThreadId) :
    (call.placed time).threadInfo thread =
      if call.selected time = some thread then { (call.vacated time).threadInfo thread with
        coreRunning := some call.core
        lastScheduledIn := time }
      else (call.vacated time).threadInfo thread := by
  refine Eq.trans ?_ (elim_update (call.selected time) (call.vacated time).threadInfo (fun thread =>
    { (call.vacated time).threadInfo thread with
      coreRunning := some call.core
      lastScheduledIn := time }) thread)
  rw [Call.placed]
  cases call.selected time <;> rfl

lemma threadInfo_after_out (left : call.out time = some thread) :
    (call.after time).threadInfo thread = { call.state.threadInfo thread with
      coreRunning := none
      lastScheduledOut := time + 1000 * call.core } := by
  obtain ⟨moves, current⟩ := out_spec left
  have other : call.selected time ≠ some thread := fun same => moves.2 (current.trans same.symm)
  rw [after_of_moves moves, threadInfo_placed, if_neg other, threadInfo_vacated, if_pos current]

lemma coreRunning_after_into (gets : call.into time = some thread) :
    ((call.after time).threadInfo thread).coreRunning = some call.core := by
  obtain ⟨moves, selected⟩ := into_spec gets
  rw [after_of_moves moves, threadInfo_placed, if_pos selected]

lemma threadInfo_after_of_ne (stays : call.out time ≠ some thread)
    (away : call.into time ≠ some thread) :
    (call.after time).threadInfo thread = call.state.threadInfo thread := by
  rw [Call.after]
  split
  · next moves =>
    rw [Call.out, if_pos moves] at stays
    rw [Call.into, if_pos moves] at away
    rw [threadInfo_placed, if_neg away, threadInfo_vacated, if_neg stays]
  · rfl

lemma score_out {info : ThreadInfo n} {core : Fin n} (idle : info.coreRunning = none)
    (left : info.lastScheduledOut = time + 1000 * core) : Pinned.score time info = -(core : ℤ) := by
  have waits : ¬ info.isRunning = true := by simp [ThreadInfo.isRunning, idle]
  rw [Pinned.score, if_neg waits, left, Pinned.ps, Pinned.ps,
    Nat.add_mul_div_left _ _ (by decide : 0 < 1000)]
  omega

end Records

/-! ## A thread that has left a core -/

section Parked

variable {time : ℕ} {a b : Call n} {earlier calls : List (Call n)} {thread : ThreadId}

/-- The thread that leaves the core of the first call does not get a later one in the second. -/
def StaysOff (time : ℕ) (a b : Call n) : Prop :=
  a.out time ≠ none → b.into time = a.out time → b.core ≤ a.core

instance (time : ℕ) : DecidableRel (StaysOff time : Call n → Call n → Prop) :=
  fun _ _ => inferInstanceAs (Decidable (_ → _ → _))

/-- A candidate for the core comes before this thread, if the thread has this score: its own score
is larger, or it is the same and its number is lower. -/
def Call.Prefers (time : ℕ) (call : Call n) (score : ℤ) (thread : ThreadId) : Prop :=
  ∃ other < call.state.numRunnable, call.state.isCandidate call.core other = true ∧
    (score < Pinned.score time (call.state.threadInfo other) ∨
      score = Pinned.score time (call.state.threadInfo other) ∧ other < thread)

instance (time : ℕ) (call : Call n) (score : ℤ) (thread : ThreadId) :
    Decidable (call.Prefers time score thread) :=
  inferInstanceAs (Decidable (∃ _ < _, _ ∧ _))

/-- Where the thread that leaves the core of the first call is a candidate for a later core in the
second, another candidate comes before a thread with the score of the penalty. -/
def Outscored (time : ℕ) (a b : Call n) : Prop :=
  ∀ thread < b.state.numRunnable, a.out time = some thread → a.core < b.core →
    b.starting = false → b.state.isCandidate b.core thread = true →
    b.Prefers time (-(a.core : ℤ)) thread

instance (time : ℕ) : DecidableRel (Outscored time : Call n → Call n → Prop) :=
  fun _ _ => inferInstanceAs (Decidable (∀ _ < _, _ → _ → _ → _ → _))

def Parked (time : ℕ) (earlier : List (Call n)) (infos : ThreadId → ThreadInfo n) : Prop :=
  ∀ a ∈ earlier, ∀ thread, a.out time = some thread → ∃ core,
    (∀ a ∈ earlier, a.out time = some thread → core ≤ a.core) ∧
      ((infos thread).coreRunning = some core ∨ (infos thread).coreRunning = none ∧
          (infos thread).lastScheduledOut = time + 1000 * core ∧
          ∃ a ∈ earlier, a.out time = some thread ∧ a.core = core)

lemma Parked.step (sound : Sound b.state) (parked : Parked time earlier b.state.threadInfo)
    (off : ∀ a ∈ earlier, StaysOff time a b) :
    Parked time (earlier ++ [b]) (b.after time).threadInfo := by
  intro a mem thread left
  by_cases leaves : b.out time = some thread
  · -- it was on this core, so it had left no lower one before
    refine ⟨b.core, fun a' mem' left' => ?_, .inr ?_⟩
    · rcases mem_append.mp mem' with mem' | mem'
      · obtain ⟨core, least, runs | ⟨idle, -⟩⟩ := parked a' mem' thread left'
        · have same : some b.core = some core := (out_runs sound leaves).symm.trans runs
          exact some.inj same ▸ least a' mem' left'
        · cases (out_runs sound leaves).symm.trans idle
      · rw [mem_singleton.mp mem']
    · rw [threadInfo_after_out leaves]
      exact ⟨rfl, rfl, b, mem_append_right _ (mem_singleton_self b), leaves, rfl⟩
  · have before : ∀ a ∈ earlier ++ [b], a.out time = some thread → a ∈ earlier := by
      intro a mem left
      rcases mem_append.mp mem with mem | mem
      · exact mem
      · exact absurd (mem_singleton.mp mem ▸ left) leaves
    by_cases gets : b.into time = some thread
    · refine ⟨b.core, fun a' mem' left' => ?_, .inl (coreRunning_after_into gets)⟩
      refine off a' (before a' mem' left') ?_ (gets.trans left'.symm)
      rw [left']
      exact some_ne_none thread
    · obtain ⟨core, least, place⟩ := parked a (before a mem left) thread left
      refine ⟨core, fun a' mem' left' => least a' (before a' mem' left') left', ?_⟩
      rw [threadInfo_after_of_ne leaves gets]
      refine place.imp_right fun waits => ⟨waits.1, waits.2.1, ?_⟩
      obtain ⟨first, mem', left', same⟩ := waits.2.2
      exact ⟨first, mem_append_left _ mem', left', same⟩

lemma staysOff_of_outscored (sound : Sound b.state)
    (parked : Parked time earlier b.state.threadInfo)
    (outscored : ∀ a ∈ earlier, Outscored time a b) : ∀ a ∈ earlier, StaysOff time a b := by
  intro a mem leaves gets
  obtain ⟨thread, left⟩ := ne_none_iff_exists'.mp leaves
  have gets : b.into time = some thread := gets.trans left
  by_contra later
  obtain ⟨core, least, runs | ⟨idle, penalty, first, mem', left', same⟩⟩ := parked a mem thread left
  · cases (into_waits sound gets).symm.trans runs
  · have before : first.core < b.core := same ▸ lt_of_le_of_lt (least a mem left) (not_le.mp later)
    obtain ⟨moves, selected⟩ := into_spec gets
    have wins := selectThread_wins selected
    obtain ⟨other, below, candidate, better⟩ :=
      outscored first mem' thread wins.below left' before moves.1 wins.qualifies
    have score := score_out idle penalty
    have beaten := wins.beats other below candidate
    rw [same] at better
    omega

lemma outscored_of_staysOff (cores : n ≤ 2147483648) (sound : Sound b.state)
    (parked : Parked time earlier b.state.threadInfo)
    (off : ∀ a ∈ earlier, StaysOff time a b) : ∀ a ∈ earlier, Outscored time a b := by
  intro a mem thread below left before started candidate
  obtain ⟨core, least, place⟩ := parked a mem thread left
  have low : core ≤ a.core := least a mem left
  have idle : (b.state.threadInfo thread).coreRunning = none := by
    refine (isCandidate_spec candidate).2.resolve_right fun here => ?_
    rcases place with runs | ⟨idle, -⟩
    · have same : core = b.core := some.inj (runs.symm.trans here)
      exact absurd before (same ▸ low).not_gt
    · cases idle.symm.trans here
  have penalty := (place.resolve_left fun runs => by cases idle.symm.trans runs).2.1
  have score := score_out idle penalty
  have above : -9223372036854775808 < Pinned.score time (b.state.threadInfo thread) := by
    have := core.isLt
    omega
  rcases selectThread_or_beaten below candidate above with selected | ⟨other, wins, better⟩
  · have waits : b.current ≠ b.selected time := by
      intro same
      cases idle.symm.trans ((sound.inverse b.core thread).mp (same.trans selected))
    have gets : b.into time = some thread := (if_pos ⟨started, waits⟩).trans selected
    have back := off a mem (by simp [left]) (gets.trans left.symm)
    exact absurd before back.not_gt
  · refine ⟨other, wins.below, wins.qualifies, ?_⟩
    have order : (core : ℕ) ≤ a.core := low
    rw [score] at better
    omega

lemma Replays.pairwise_iff (cores : n ≤ 2147483648) {infos infos' : ThreadId → ThreadInfo n}
    (replays : Replays time infos calls infos') (parked : Parked time earlier infos)
    (off : earlier.Pairwise (StaysOff time)) (out : earlier.Pairwise (Outscored time)) :
    (earlier ++ calls).Pairwise (StaysOff time) ↔ (earlier ++ calls).Pairwise (Outscored time) := by
  induction replays generalizing earlier with
  | done infos =>
    rw [append_nil]
    exact iff_of_true off out
  | @call call rest infos sound later ih =>
    have iff : (∀ a ∈ earlier, StaysOff time a call) ↔ ∀ a ∈ earlier, Outscored time a call :=
      ⟨outscored_of_staysOff cores sound parked, staysOff_of_outscored sound parked⟩
    rw [append_cons]
    by_cases here : ∀ a ∈ earlier, StaysOff time a call
    · refine ih (parked.step sound here) ?_ ?_
      · exact pairwise_append.mpr ⟨off, pairwise_singleton _ _, by simpa using here⟩
      · exact pairwise_append.mpr ⟨out, pairwise_singleton _ _, by simpa using iff.mp here⟩
    · refine iff_of_false (fun all => here ?_) fun all => here (iff.mpr ?_)
      · exact fun a mem => (pairwise_append.mp (pairwise_append.mp all).1).2.2 a mem call
          (mem_singleton_self call)
      · exact fun a mem => (pairwise_append.mp (pairwise_append.mp all).1).2.2 a mem call
          (mem_singleton_self call)

end Parked

/-- In a call of `periodic` no thread that leaves a core gets a later one exactly if each such
thread meets a better candidate wherever it is a candidate. The numbers of cores are those of a
`core_id_t`. -/
theorem periodic_staysOff_iff (cores : n ≤ 2147483648) (quantum : ℕ) (events : List (Event n))
    (s : Pinned n) (reached : Runs.run step (.ok (.start quantum)) events = .ok s) (time : ℕ) :
    (s.periodicCalls time).Pairwise (StaysOff time) ↔
      (s.periodicCalls time).Pairwise (Outscored time) := by
  have sound : Sound s := by
    refine Runs.run_invariant
      (I := fun state : Except Fault (Pinned n) => ∀ s, state = .ok s → Sound s)
      (fun _ _ => sound_step) ?_ events s reached
    rintro s ⟨⟩
    exact .start quantum
  obtain ⟨s', -, replays⟩ := replays_periodic sound time
  have nobody : Parked time [] s.threadInfo := by
    intro a mem
    cases mem
  exact replays.pairwise_iff cores nobody List.Pairwise.nil List.Pairwise.nil

def firstRuns (core : Fin n) : Event n :=
  .threads { Threads.start with
    status := fun thread => if thread = 0 then .running else .stalled
    stalledReason := fun _ => .unscheduled } fun thread => if thread = 0 then some core else none

def twoThreads (first second : Fin n) : List (Event n) :=
  [.create [first, second], .create [first], firstRuns first, .start 0 0, .start 1 0]

def fourThreads (first second : Fin n) : List (Event n) :=
  [.create [first, second], .create [first], .create [second], .create [second], firstRuns first,
    .start 0 0, .start 1 0, .start 2 0, .start 3 0]

theorem periodic_staysOff_four :
    ∃ s : Pinned 2, Runs.run step (.ok (.start 100)) (fourThreads 0 1) = .ok s ∧
      (s.periodicCalls 1000000).Pairwise (StaysOff 1000000) := by
  have outscored : (Runs.run step (.ok (.start 100)) (fourThreads (0 : Fin 2) 1)).toOption.map
      (fun s => decide ((s.periodicCalls 1000000).Pairwise (Outscored 1000000))) = some true := by
    decide
  obtain ⟨s, reached, outscored⟩ := exists_of_toOption outscored
  have holds := of_decide_eq_true outscored
  exact ⟨s, reached, (periodic_staysOff_iff (by decide) 100 _ s reached 1000000).mpr holds⟩

/-- The first thread leaves the first core to the second thread, and gets the second core. -/
theorem descheduled_gets_next_core :
    (Runs.run step (.ok (.start 100)) (twoThreads (0 : Fin 2) 1)).toOption.map (fun s =>
      (s.coreRunning 0, (s.periodic 1000000).toOption.map fun s => s.coreRunning 0,
        decide ((s.periodicCalls 1000000).Pairwise (StaysOff 1000000)))) =
      some (some 0, some (some 1), false) := by
  decide

end Sniper.Scheduler
