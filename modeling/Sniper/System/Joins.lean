import Sniper.System.ThreadManager

/-!
# When `joinThread` returns

In runs where threads are joined when they have started, who waits in the field of a thread that has
not started waits for its start, and who waits in the field of a thread that has waits for its end.
So a signal to a thread in `joinThread` comes from the end of the other thread.
-/

namespace Sniper.System.ThreadManager

open Fallible Nat Runs
open Function (update_of_ne update_self)

/-- In a `wait` that the field of another thread is for. -/
def Phase.waitsForThread : Phase → Bool
  | .starting _ => true
  | .joining _ => true
  | _ => false

namespace Manager

/-- The thread has executed `onThreadExit`. -/
def Ended (s : Manager) (thread : ThreadId) : Prop :=
  thread < s.numThreads ∧ s.status thread = .idle

def Alive (s : Manager) (thread : ThreadId) : Prop :=
  s.status thread = .running ∨ s.status thread = .stalled

/-- The status of a thread is that of the place where it is. In `joinThread` it is stalled for this,
until it is signalled when the other thread has ended. -/
inductive Settled (s : Manager) (thread : ThreadId) : Prop where
  | created (phase : s.phase thread = .created) (status : s.status thread = .initializing)
  | running (phase : s.phase thread = .running) (alive : s.Alive thread)
  | starting (other : ThreadId) (phase : s.phase thread = .starting other)
      (status : s.status thread = .running)
  | joining (other : ThreadId) (phase : s.phase thread = .joining other)
      (known : other < s.numThreads) (status : s.status thread = .stalled)
      (reason : s.threads.stalledReason thread = .join) (waits : s.signalled thread = false)
  | joined (other : ThreadId) (phase : s.phase thread = .joining other)
      (status : s.status thread = .running) (ended : s.Ended other)
  | unscheduled (joinThread : Option ThreadId) (phase : s.phase thread = .unscheduled joinThread)
      (alive : s.Alive thread) (ended : ∀ other ∈ joinThread, s.Ended other)
  | exited (phase : s.phase thread = .exited) (status : s.status thread = .idle)

structure Untouched (s s' : Manager) (thread : ThreadId) : Prop where
  phase : s'.phase thread = s.phase thread
  status : s'.status thread = s.status thread
  reason : s'.threads.stalledReason thread = s.threads.stalledReason thread
  signalled : s'.signalled thread = s.signalled thread

variable {s s' : Manager} {thread other : ThreadId}

lemma Settled.congr (settled : Settled s thread) (same : Untouched s s' thread)
    (more : s.numThreads ≤ s'.numThreads) (ended : ∀ other, s.Ended other → s'.Ended other) :
    Settled s' thread := by
  have alive : s.Alive thread → s'.Alive thread := by
    rw [Alive, Alive, same.status]
    exact id
  cases settled with
  | created phase status => exact .created (same.phase.trans phase) (same.status.trans status)
  | running phase lives => exact .running (same.phase.trans phase) (alive lives)
  | starting other phase status =>
    exact .starting other (same.phase.trans phase) (same.status.trans status)
  | joining other phase known status reason waits =>
    exact .joining other (same.phase.trans phase) (lt_of_lt_of_le known more)
      (same.status.trans status) (same.reason.trans reason) (same.signalled.trans waits)
  | joined other phase status gone =>
    exact .joined other (same.phase.trans phase) (same.status.trans status) (ended other gone)
  | unscheduled joinThread phase lives gone =>
    exact .unscheduled joinThread (same.phase.trans phase) (alive lives) fun other mem =>
      ended other (gone other mem)
  | exited phase status => exact .exited (same.phase.trans phase) (same.status.trans status)

def Allows (status : CoreState) : Phase → Prop
  | .created => status = .initializing
  | .starting _ => status = .running
  | .exited => status = .idle
  | _ => status = .running ∨ status = .stalled

section

variable (settled : Settled s thread)

include settled

lemma Settled.allows : Allows (s.status thread) (s.phase thread) := by
  cases settled with
  | created phase status => exact phase ▸ status
  | running phase alive => exact phase ▸ alive
  | starting other phase status => exact phase ▸ status
  | joining other phase known status reason waits => exact phase ▸ Or.inr status
  | joined other phase status ended => exact phase ▸ Or.inl status
  | unscheduled joinThread phase alive ended => exact phase ▸ alive
  | exited phase status => exact phase ▸ status

lemma Settled.created_iff : s.phase thread = .created ↔ s.status thread = .initializing := by
  have allows := settled.allows
  revert allows
  cases s.phase thread <;> grind [Allows]

lemma Settled.exited_iff : s.phase thread = .exited ↔ s.status thread = .idle := by
  have allows := settled.allows
  revert allows
  cases s.phase thread <;> grind [Allows]

lemma Settled.alive (phase : s.phase thread = .running) : s.Alive thread := by
  have allows := settled.allows
  rwa [phase] at allows

end

lemma Alive.not_idle (alive : s.Alive thread) : s.status thread ≠ .idle := by
  rcases alive with status | status
  · simp [status]
  · simp [status]

/-- A thread that is in somebody's field waits for this, and it is not signalled; one that waits for
the end of a thread waits for one that has started. -/
def Waits (s : Manager) (thread waiter : ThreadId) : Prop :=
  s.signalled waiter = false ∧ (s.phase waiter = .starting thread ∨
    (s.phase waiter = .joining thread ∧ s.phase thread ≠ .created))

end Manager

open Manager

structure Sound (s : Manager) : Prop where
  settled : ∀ thread, s.Settled thread
  waits : ∀ thread waiter, s.waiter thread = some waiter → s.Waits thread waiter
  returned : ∀ join ∈ s.returned, join.status = .idle
  fresh : ∀ thread, s.numThreads ≤ thread → s.phase thread = .exited

lemma Sound.start : Sound .start where
  settled := fun _ => .exited rfl rfl
  waits := by rintro thread waiter ⟨⟩
  returned := by rintro join ⟨⟩
  fresh := fun _ _ => rfl

variable {s s' : Manager} {thread other : ThreadId} {time : ℕ}

lemma Sound.free (sound : Sound s) (away : (s.phase thread).waitsForThread = false)
    (other : ThreadId) : s.waiter other ≠ some thread := by
  intro is
  rcases (sound.waits other thread is).2 with phase | ⟨phase, -⟩
  · rw [phase] at away
    cases away
  · rw [phase] at away
    cases away

/-- The invariant is to be shown for the threads that an event touches, and for no others. -/
lemma Sound.of_touched (sound : Sound s) (touched : ThreadId → Prop)
    (num : s'.numThreads = s.numThreads)
    (untouched : ∀ thread, ¬ touched thread → Untouched s s' thread)
    (lives : ∀ thread, touched thread → s.status thread ≠ .idle)
    (settled : ∀ thread, touched thread → s'.Settled thread ∧ s'.phase thread ≠ .created)
    (waits : ∀ thread waiter, s'.waiter thread = some waiter →
      (s.waiter thread = some waiter ∧ ¬ touched waiter) ∨ s'.Waits thread waiter)
    (returned : ∀ join ∈ s'.returned, join.status = .idle) : Sound s' := by
  have ended : ∀ thread, s.status thread = .idle → s'.status thread = .idle := by
    intro thread idle
    exact (untouched thread fun here => lives thread here idle).status.trans idle
  have settled' : ∀ thread, s'.Settled thread := by
    intro thread
    by_cases here : touched thread
    · exact (settled thread here).1
    · refine (sound.settled thread).congr (untouched thread here) (num ▸ le_refl _) ?_
      rintro other ⟨known, idle⟩
      exact ⟨num ▸ known, ended other idle⟩
  refine ⟨settled', ?_, returned, ?_⟩
  · intro thread waiter is
    rcases waits thread waiter is with ⟨before, away⟩ | waits'
    · obtain ⟨signalled, phase⟩ := sound.waits thread waiter before
      refine ⟨(untouched waiter away).signalled.trans signalled, ?_⟩
      rw [(untouched waiter away).phase]
      rcases phase with starting | ⟨joining, started⟩
      · exact .inl starting
      · refine .inr ⟨joining, ?_⟩
        by_cases here : touched thread
        · exact (settled thread here).2
        · rw [(untouched thread here).phase]
          exact started
    · exact waits'
  · intro thread above
    rw [num] at above
    have idle := (sound.settled thread).exited_iff.mp (sound.fresh thread above)
    exact (settled' thread).exited_iff.mpr (ended thread idle)

lemma Sound.of_one (sound : Sound s) (free : ∀ other, s.waiter other ≠ some thread)
    (lives : s.status thread ≠ .idle) (num : s'.numThreads = s.numThreads)
    (waiter : s'.waiter = s.waiter) (untouched : ∀ other, other ≠ thread → Untouched s s' other)
    (settled : s'.Settled thread) (begun : s'.phase thread ≠ .created)
    (returned : ∀ join ∈ s'.returned, join.status = .idle) : Sound s' := by
  refine sound.of_touched (· = thread) num untouched ?_ ?_ ?_ returned
  · rintro _ rfl
    exact lives
  · rintro _ rfl
    exact ⟨settled, begun⟩
  · intro other is before
    rw [waiter] at before
    refine .inl ⟨before, ?_⟩
    rintro rfl
    exact free other before

lemma Sound.of_waiter (sound : Sound s) (phase : s.phase thread = .running)
    (num : s'.numThreads = s.numThreads)
    (waiter : s'.waiter = Function.update s.waiter other (some thread))
    (untouched : ∀ other, other ≠ thread → Untouched s s' other)
    (settled : s'.Settled thread) (waits : s'.Waits other thread)
    (begun : s'.phase thread ≠ .created)
    (returned : ∀ join ∈ s'.returned, join.status = .idle) : Sound s' := by
  refine sound.of_touched (· = thread) num untouched ?_ ?_ ?_ returned
  · rintro _ rfl idle
    rw [← (sound.settled _).exited_iff, phase] at idle
    cases idle
  · rintro _ rfl
    exact ⟨settled, begun⟩
  · intro different is before
    rw [waiter] at before
    by_cases same : different = other
    · subst same
      rw [update_self] at before
      rw [← Option.some.inj before]
      exact .inr waits
    · rw [update_of_ne same] at before
      refine .inl ⟨before, ?_⟩
      rintro rfl
      exact sound.free (phase ▸ rfl) different before

lemma Sound.of_release (sound : Sound s) {waiter : ThreadId}
    (is : s.waiter thread = some waiter) (num : s'.numThreads = s.numThreads)
    (released : s'.waiter = Function.update s.waiter thread none)
    (untouched : ∀ other, other ≠ waiter → Untouched s s' other)
    (settled : s'.Settled waiter) (phase : s'.phase waiter = s.phase waiter)
    (returned : s'.returned = s.returned) : Sound s' := by
  obtain ⟨-, place⟩ := sound.waits thread waiter is
  have begun : s.phase waiter ≠ .created ∧ s.phase waiter ≠ .exited := by
    rcases place with starting | ⟨joining, -⟩
    · simp [starting]
    · simp [joining]
  refine sound.of_touched (· = waiter) num untouched ?_ ?_ ?_ (returned ▸ sound.returned)
  · rintro _ rfl idle
    exact begun.2 ((sound.settled _).exited_iff.mpr idle)
  · rintro _ rfl
    exact ⟨settled, phase ▸ begun.1⟩
  · intro other waiter' before
    rw [released] at before
    by_cases same : other = thread
    · rw [same, update_self] at before
      cases before
    · rw [update_of_ne same] at before
      refine .inl ⟨before, ?_⟩
      -- one thread does not wait in two places
      rintro rfl
      rcases (sound.waits other _ before).2 with starting | ⟨joining, -⟩
      · rcases place with starting' | ⟨joining', -⟩
        · exact same (Phase.starting.inj (starting.symm.trans starting'))
        · rw [joining'] at starting
          cases starting
      · rcases place with starting' | ⟨joining', -⟩
        · rw [joining] at starting'
          cases starting'
        · exact same (Phase.joining.inj (joining.symm.trans joining'))

/-! ## One step -/

section

variable (sound : Sound s)

include sound

lemma Sound.spawnThread (core : Option CoreId) : Sound (s.spawnThread core) where
  settled thread := by
    by_cases new : thread = s.numThreads
    · subst new
      exact .created (update_self ..) (update_self ..)
    · have untouched : Untouched s (s.spawnThread core) thread :=
        ⟨update_of_ne new .., update_of_ne new .., rfl, rfl⟩
      refine (sound.settled thread).congr untouched (le_succ _) ?_
      rintro other ⟨known, idle⟩
      exact ⟨lt_succ_of_lt known, (update_of_ne (Nat.ne_of_lt known) ..).trans idle⟩
  waits thread waiter is := by
    by_cases new : thread = s.numThreads
    · rw [new] at is
      have none' : (s.spawnThread core).waiter s.numThreads = none := update_self ..
      rw [none'] at is
      cases is
    · have before : s.waiter thread = some waiter := (update_of_ne new ..).symm.trans is
      have old : waiter ≠ s.numThreads := by
        rintro rfl
        exact sound.free (by rw [sound.fresh _ (le_refl _)]; rfl) thread before
      have same : ∀ {thread}, thread ≠ s.numThreads →
          (s.spawnThread core).phase thread = s.phase thread := fun other =>
        update_of_ne other ..
      rw [Waits, same old, same new]
      exact sound.waits thread waiter before
  returned := sound.returned
  fresh thread above := by
    have new : thread ≠ s.numThreads := ne_of_gt above
    exact (update_of_ne new ..).trans (sound.fresh thread (le_of_succ_le above))

lemma Sound.waitForThreadStart (phase : s.phase thread = .running)
    (status : s.status thread = .running) (returns : s.waitForThreadStart thread other = .ok s') :
    Sound s' := by
  rw [Manager.waitForThreadStart] at returns
  split at returns
  · rename_i initializing
    split at returns
    · cases returns
    · rename_i empty
      cases returns
      refine sound.of_waiter phase rfl rfl ?_ ?_ ?_ ?_ sound.returned
      · intro different away
        exact ⟨update_of_ne away .., rfl, rfl, update_of_ne away ..⟩
      · exact .starting other (update_self ..) status
      · exact ⟨update_self .., .inl (update_self ..)⟩
      · simp [Manager.setPhase]
  · cases returns
    exact sound

lemma Sound.arrive (free : ∀ other, s.waiter other ≠ some thread)
    (alive : s.Alive thread) {joinThread : Option ThreadId}
    (ended : ∀ other ∈ joinThread, s.status other = .idle) :
    Sound (s.arrive thread joinThread) := by
  refine sound.of_one free alive.not_idle rfl rfl ?_ ?_ ?_ ?_
  · intro other away
    exact ⟨update_of_ne away .., rfl, rfl, rfl⟩
  · exact .running (update_self ..) alive
  · simp [Manager.arrive, Manager.setPhase]
  · intro join mem
    rcases List.mem_append.mp mem with before | last
    · exact sound.returned join before
    · cases joinThread with
      | none => cases last
      | some other =>
        rw [List.mem_singleton.mp last]
        exact ended other rfl

lemma Sound.reschedule (free : ∀ other, s.waiter other ≠ some thread)
    (alive : s.Alive thread) {joinThread : Option ThreadId}
    (ended : ∀ other ∈ joinThread, s.Ended other) : Sound (s.reschedule thread joinThread) := by
  rw [Manager.reschedule]
  split
  · refine sound.of_one free alive.not_idle rfl rfl ?_ ?_ ?_ sound.returned
    · intro other away
      exact ⟨update_of_ne away .., update_of_ne away .., update_of_ne away .., update_of_ne away ..⟩
    · refine .unscheduled joinThread (update_self ..) (.inr (update_self ..)) fun other mem => ?_
      obtain ⟨known, idle⟩ := ended other mem
      have away : other ≠ thread := by
        rintro rfl
        exact alive.not_idle idle
      exact ⟨known, (update_of_ne away ..).trans idle⟩
    · simp [Manager.stallThread]
  · exact sound.arrive free alive fun other mem => (ended other mem).2

lemma Sound.joinThread (phase : s.phase thread = .running)
    (known : other < s.numThreads) (started : s.status other ≠ .initializing)
    (returns : s.joinThread thread other = .ok s') : Sound s' := by
  rw [Manager.joinThread] at returns
  split at returns
  · rename_i idle
    cases returns
    refine sound.arrive (sound.free (phase ▸ rfl)) ((sound.settled thread).alive phase) ?_
    rintro _ ⟨⟩
    exact idle
  · split at returns
    · cases returns
    · split at returns
      · cases returns
      · cases returns
        refine sound.of_waiter phase rfl rfl ?_ ?_ ?_ ?_ sound.returned
        · intro different away
          exact ⟨update_of_ne away .., update_of_ne away ..,
            update_of_ne away .., update_of_ne away ..⟩
        · exact .joining other (update_self ..) known (update_self ..)
            (update_self ..) (update_self ..)
        · refine ⟨update_self .., .inr ⟨update_self .., ?_⟩⟩
          by_cases same : other = thread
          · subst same
            simp [Manager.stallThread]
          · intro created
            have before : s.phase other = .created := (update_of_ne same ..).symm.trans created
            exact started ((sound.settled other).created_iff.mp before)
        · simp [Manager.stallThread]

lemma Sound.setStarted (phase : s.phase thread = .created) : Sound (s.setStarted thread) := by
  have free : ∀ other, s.waiter other ≠ some thread := sound.free (phase ▸ rfl)
  have lives : s.status thread ≠ .idle := by simp [(sound.settled thread).created_iff.mp phase]
  rw [Manager.setStarted]
  split
  · refine sound.of_one free lives rfl rfl ?_ ?_ ?_ sound.returned
    · intro other away
      exact ⟨update_of_ne away .., update_of_ne away .., update_of_ne away .., rfl⟩
    · exact .running (update_self ..) (.inr (update_self ..))
    · simp [Manager.setPhase]
  · refine sound.of_one free lives rfl rfl ?_ ?_ ?_ sound.returned
    · intro other away
      exact ⟨update_of_ne away .., update_of_ne away .., rfl, rfl⟩
    · exact .running (update_self ..) (.inl (update_self ..))
    · simp [Manager.setPhase, Manager.setStatus]

lemma Sound.signalWaiter
    (starting : ∀ waiter, s.waiter thread = some waiter → s.phase waiter = .starting thread) :
    Sound (s.signalWaiter thread time) := by
  rw [Manager.signalWaiter]
  cases is : s.waiter thread with
  | none => exact sound
  | some waiter =>
    have place := starting waiter is
    have status := (sound.settled waiter).allows
    rw [place] at status
    refine sound.of_release is rfl rfl ?_ ?_ rfl rfl
    · intro other away
      exact ⟨rfl, rfl, rfl, update_of_ne away ..⟩
    · exact .starting thread place status

end

lemma waiter_setStarted : (s.setStarted thread).waiter = s.waiter := by
  rw [Manager.setStarted]
  split
  · rfl
  · rfl

lemma phase_setStarted : (s.setStarted thread).phase = Function.update s.phase thread .running := by
  rw [Manager.setStarted]
  split
  · rfl
  · rfl

section

variable (sound : Sound s)

include sound

lemma Sound.onThreadStart (phase : s.phase thread = .created) :
    Sound (s.onThreadStart thread time) := by
  refine (sound.setStarted phase).signalWaiter fun waiter is => ?_
  rw [waiter_setStarted] at is
  -- the thread has not started, so nobody waits for its end
  have place : s.phase waiter = .starting thread := by
    rcases (sound.waits thread waiter is).2 with starting | ⟨-, started⟩
    · exact starting
    · exact absurd phase started
  have away : waiter ≠ thread := by
    rintro rfl
    rw [phase] at place
    cases place
  rw [phase_setStarted, update_of_ne away]
  exact place

lemma Sound.wakeUpWaiter (ended : s.Ended thread) : Sound (s.wakeUpWaiter thread time) := by
  rw [Manager.wakeUpWaiter]
  cases is : s.waiter thread with
  | none => exact sound
  | some waiter =>
    obtain ⟨-, place⟩ := sound.waits thread waiter is
    have away : thread ≠ waiter := by
      rintro rfl
      rw [(sound.settled thread).exited_iff.mpr ended.2] at place
      simp at place
    refine sound.of_release is rfl rfl ?_ ?_ rfl rfl
    · intro other away
      exact ⟨rfl, update_of_ne away .., rfl, update_of_ne away ..⟩
    · rcases place with starting | ⟨joining, -⟩
      · exact .starting thread starting (update_self ..)
      · exact .joined thread joining (update_self ..)
          ⟨ended.1, (update_of_ne away ..).trans ended.2⟩

lemma Sound.setCore (core : Option CoreId) : Sound (s.setCore thread core) where
  settled := fun other =>
    (sound.settled other).congr ⟨rfl, rfl, rfl, rfl⟩ (le_refl _) fun _ ended => ended
  waits := sound.waits
  returned := sound.returned
  fresh := sound.fresh

lemma Sound.onThreadExit (phase : s.phase thread = .running)
    (returns : s.onThreadExit thread time = .ok s') : Sound s' := by
  rw [Manager.onThreadExit] at returns
  split at returns
  · cases returns
  · split at returns
    · cases returns
    · cases returns
      have known : thread < s.numThreads := by
        by_contra above
        rw [sound.fresh thread (Nat.le_of_not_lt above)] at phase
        cases phase
      have exits : Sound ((s.setStatus thread .idle).setPhase thread .exited) := by
        refine sound.of_one (sound.free (phase ▸ rfl))
          ((sound.settled thread).alive phase).not_idle rfl rfl ?_ ?_ ?_ sound.returned
        · intro other away
          exact ⟨update_of_ne away .., update_of_ne away .., rfl, rfl⟩
        · exact .exited (update_self ..) (update_self ..)
        · simp [Manager.setPhase]
      exact (exits.wakeUpWaiter ⟨known, update_self ..⟩).setCore none

lemma Sound.resumeThread (stalled : s.status thread = .stalled)
    (reason : s.threads.stalledReason thread = .unscheduled) :
    Sound (s.resumeThread thread none time) := by
  have lives : s.status thread ≠ .idle := by simp [stalled]
  have untouched : ∀ other, other ≠ thread →
      Untouched s (s.resumeThread thread none time) other := fun other away =>
    ⟨rfl, update_of_ne away .., rfl, update_of_ne away ..⟩
  have runs : (s.resumeThread thread none time).Alive thread := Or.inl (update_self ..)
  cases sound.settled thread with
  | running phase _ =>
    have free : ∀ other, s.waiter other ≠ some thread := sound.free (phase ▸ rfl)
    refine sound.of_one free lives rfl rfl untouched (.running phase runs) ?_ sound.returned
    simp [Manager.resumeThread, Manager.notify, phase]
  | unscheduled joinThread phase _ ended =>
    have free : ∀ other, s.waiter other ≠ some thread := sound.free (phase ▸ rfl)
    refine sound.of_one free lives rfl rfl untouched (.unscheduled joinThread phase runs ?_) ?_
      sound.returned
    · intro other mem
      obtain ⟨known, idle⟩ := ended other mem
      have away : other ≠ thread := by
        rintro rfl
        exact lives idle
      exact ⟨known, (update_of_ne away ..).trans idle⟩
    · simp [Manager.resumeThread, Manager.notify, phase]
  | created _ status =>
    rw [stalled] at status
    cases status
  | starting _ _ status =>
    rw [stalled] at status
    cases status
  | joining _ _ _ _ why _ =>
    rw [reason] at why
    cases why
  | joined _ _ status _ =>
    rw [stalled] at status
    cases status
  | exited _ status =>
    rw [stalled] at status
    cases status

lemma Sound.moveThread (core : Option CoreId) : Sound (s.moveThread thread core time) := by
  rw [Manager.moveThread]
  split
  · rename_i resumes
    exact (sound.resumeThread resumes.2.2.1 resumes.2.2.2).setCore core
  · exact sound.setCore core

lemma Sound.wake (signalled : s.signalled thread = true) : Sound (s.wake thread) := by
  have free : ∀ other, s.waiter other ≠ some thread := by
    intro other is
    rw [(sound.waits other thread is).1] at signalled
    cases signalled
  rw [Manager.wake]
  cases sound.settled thread with
  | created phase _ =>
    rw [phase]
    exact sound
  | running phase _ =>
    rw [phase]
    exact sound
  | starting other phase status =>
    rw [phase]
    exact sound.arrive free (.inl status) (by rintro other ⟨⟩)
  | joining other phase _ _ _ waits =>
    rw [waits] at signalled
    cases signalled
  | joined other phase status ended =>
    rw [phase]
    refine sound.reschedule free (.inl status) ?_
    rintro _ ⟨⟩
    exact ended
  | unscheduled joinThread phase alive ended =>
    rw [phase]
    exact sound.reschedule free alive ended
  | exited phase _ =>
    rw [phase]
    exact sound

lemma Sound.handle {event : Event} (permits : s.Permits event)
    (started : s.Started event) (returns : s.handle event = .ok s') : Sound s' := by
  cases event with
  | spawn core =>
    cases returns
    exact sound.spawnThread core
  | waitForStart thread waitThread => exact sound.waitForThreadStart permits.1 permits.2.1 returns
  | start thread time =>
    cases returns
    exact sound.onThreadStart permits
  | exit thread time => exact sound.onThreadExit permits returns
  | join thread joinThread => exact sound.joinThread permits.1 permits.2.2 started returns
  | move thread core time =>
    cases returns
    exact sound.moveThread core
  | reschedule thread =>
    cases returns
    have phase : s.phase thread = .running := permits
    exact sound.reschedule (sound.free (phase ▸ rfl))
      ((sound.settled thread).alive phase) (by rintro other ⟨⟩)
  | wake thread =>
    cases returns
    exact sound.wake permits.2

end

/-- In every run where threads are joined when they have started, `joinThread` returns when the
other thread has ended. -/
theorem joins_after_exit (events : List Event)
    (permitted : Guarded step Permitted (.ok .start) events)
    (started : Guarded step Started (.ok .start) events) :
    Throughout step (fun state => ∀ s, state = .ok s → ∀ join ∈ s.returned, join.status = .idle)
      (.ok .start) events := by
  refine throughout_guarded (I := fun state => ∀ s, state = .ok s → Sound s) ?_ ?_ ?_
    (permitted.and started)
  · intro state event sound allowed s' returns
    obtain ⟨s, rfl, returns⟩ := bind_eq_ok.mp returns
    exact (sound s rfl).handle (allowed.1 s rfl) (allowed.2 s rfl) returns
  · intro state sound s reached
    exact (sound s reached).returned
  · intro s first
    cases first
    exact Sound.start

def startThenJoin : List Event :=
  [.spawn (some 0), .start 0 0, .spawn (some 1), .start 1 0, .join 0 1, .exit 1 5, .wake 0]

theorem joins_after_exit_started :
    (run step (.ok .start) startThenJoin).toOption.map (·.returned) =
      some [⟨0, 1, .idle⟩] ∧
    Throughout step (fun state => ∀ s, state = .ok s → ∀ join ∈ s.returned, join.status = .idle)
      (.ok .start) startThenJoin := by
  refine ⟨by decide, joins_after_exit startThenJoin ⟨?_, ?_, ?_, ?_, ?_, ?_, ?_, trivial⟩
    ⟨?_, ?_, ?_, ?_, ?_, ?_, ?_, trivial⟩⟩
  · exact fun _ _ => trivial
  · rintro _ ⟨⟩
    exact rfl
  · exact fun _ _ => trivial
  · rintro _ ⟨⟩
    exact rfl
  · rintro _ ⟨⟩
    exact ⟨rfl, rfl, lt_succ_self 1⟩
  · rintro _ ⟨⟩
    exact rfl
  · rintro _ ⟨⟩
    exact ⟨rfl, rfl⟩
  · exact fun _ _ => trivial
  · exact fun _ _ => trivial
  · exact fun _ _ => trivial
  · exact fun _ _ => trivial
  · rintro _ ⟨⟩ ⟨⟩
  · exact fun _ _ => trivial
  · exact fun _ _ => trivial

def joinThenStart : List Event :=
  [.spawn (some 0), .start 0 0, .spawn (some 1), .join 0 1, .start 1 0, .wake 0]

/-- It wakes up who joins it when it starts. -/
theorem join_returns_at_start : Guarded step Permitted (.ok .start) joinThenStart ∧
    (run step (.ok .start) joinThenStart).toOption.map (·.returned) =
      some [⟨0, 1, .running⟩] := by
  refine ⟨⟨?_, ?_, ?_, ?_, ?_, ?_, trivial⟩, by decide⟩
  · exact fun _ _ => trivial
  · rintro _ ⟨⟩
    exact rfl
  · exact fun _ _ => trivial
  · rintro _ ⟨⟩
    exact ⟨rfl, rfl, lt_succ_self 1⟩
  · rintro _ ⟨⟩
    exact rfl
  · rintro _ ⟨⟩
    exact ⟨rfl, rfl⟩

end Sniper.System.ThreadManager
