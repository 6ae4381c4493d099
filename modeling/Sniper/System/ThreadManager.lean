import Sniper.Lib.Fallible
import Sniper.Lib.Runs
import Sniper.System.Threads

/-!
# Starting, joining and ending threads

`ThreadManager` lets a thread wait for another one in two places: for its start, in
`waitForThreadStart`, and for its end, in `joinThread`. The state of a thread has one field for the
thread that waits for it, and both use this field.

All calls hold one lock, which is given up only in `Thread::wait`, so what a call does up to there,
and from there, is a step. A signal to a thread that is not in `Thread::wait` is lost. The hooks are
left out but for what they may do to threads here, which is to move them to a core or from it; so is
the time of the barrier, which is advanced while nobody runs.
-/

namespace Sniper.System.ThreadManager

open Fallible Function

abbrev CoreId := ℕ

inductive Phase where
  /-- Before `onThreadStart`. -/
  | created
  /-- In the application. -/
  | running
  /-- In the `wait` of `waitForThreadStart`. -/
  | starting (waitThread : ThreadId)
  /-- In the `wait` of `joinThread`. -/
  | joining (joinThread : ThreadId)
  /-- In the `wait` of `Thread::reschedule`, which `joinThread` calls before it returns. -/
  | unscheduled (joinThread : Option ThreadId)
  /-- After `onThreadExit`, or there is no such thread. -/
  | exited
  deriving DecidableEq, Repr

/-- In `Thread::wait`. -/
def Phase.waits : Phase → Bool
  | .starting _ => true
  | .joining _ => true
  | .unscheduled _ => true
  | _ => false

inductive Fault where
  /-- "Multiple threads waiting for thread", or joining on it. -/
  | multipleWaiters
  /-- "Thread ended while not running on a core?" -/
  | endedWithoutCore
  /-- `assert(m_thread_state[thread_id].status == Core::RUNNING)`. -/
  | endedWhileNotRunning
  /-- The core of the thread is `NULL` and is asked for its time. -/
  | noCore
  deriving DecidableEq, Repr

/-- A return of `joinThread`, with the status that the other thread has then. -/
structure JoinReturn where
  thread : ThreadId
  joinThread : ThreadId
  status : CoreState
  deriving DecidableEq, Repr

structure Manager where
  threads : Threads
  numThreads : ℕ
  waiter : ThreadId → Option ThreadId
  core : ThreadId → Option CoreId
  phase : ThreadId → Phase
  /-- The thread was given a signal since it is in `Thread::wait`. -/
  signalled : ThreadId → Bool
  /-- The returns of `joinThread`, in their order. -/
  returned : List JoinReturn

namespace Manager

def start : Manager where
  threads := { Threads.start with status := fun _ => .idle }
  numThreads := 0
  waiter := fun _ => none
  core := fun _ => none
  phase := fun _ => .exited
  signalled := fun _ => false
  returned := []

def status (s : Manager) (thread : ThreadId) : CoreState := s.threads.status thread

variable (thread : ThreadId)

def setStatus (status : CoreState) (s : Manager) : Manager :=
  { s with threads :=
      { s.threads with status := update s.threads.status thread status } }

def setPhase (phase : Phase) (s : Manager) : Manager :=
  { s with phase := update s.phase thread phase }

def setWaiter (waiter : Option ThreadId) (s : Manager) : Manager :=
  { s with waiter := update s.waiter thread waiter }

def setCore (core : Option CoreId) (s : Manager) : Manager :=
  { s with core := update s.core thread core }

/-- `ConditionVariable::signal`, which is lost on a thread that does not wait. -/
def notify (s : Manager) : Manager :=
  { s with signalled := update s.signalled thread (s.phase thread).waits }

/-- `Thread::signal`. -/
def signal (time : ℕ) (s : Manager) : Manager :=
  { s.notify thread with threads :=
      { s.threads with
        wakeupTime := update s.threads.wakeupTime thread time
        wakeupMsg := update s.threads.wakeupMsg thread false } }

def resumeThread (threadBy : Option ThreadId) (time : ℕ) (s : Manager) : Manager :=
  { s.notify thread with threads := s.threads.resumeThread thread threadBy time false }

/-- `stallThread`, up to its `wait`. -/
def stallThread (reason : StallType) (phase : Phase) (s : Manager) : Manager :=
  { s with
    threads := s.threads.stallThread thread reason
    phase := update s.phase thread phase
    signalled := update s.signalled thread false }

/-- A call returns to the application, `joinThread` if it is for a thread. -/
def arrive (joinThread : Option ThreadId) (s : Manager) : Manager :=
  { s.setPhase thread .running with
    returned := s.returned ++ (joinThread.map fun other => ⟨thread, other, s.status other⟩).toList }

/-- `Thread::reschedule`: while the thread has no core it waits. -/
def reschedule (joinThread : Option ThreadId) (s : Manager) : Manager :=
  if s.core thread = none then s.stallThread thread .unscheduled (.unscheduled joinThread)
  else s.arrive thread joinThread

/-- `spawnThread`, and `createThread`: the new thread has the next number, and perhaps a core. -/
def spawnThread (core : Option CoreId) (s : Manager) : Manager :=
  let thread := s.numThreads
  { ((((s.setStatus thread .initializing).setWaiter thread none).setCore thread core).setPhase
      thread .created) with numThreads := s.numThreads + 1 }

/-- `waitForThreadStart`, up to its `wait`. -/
def waitForThreadStart (thread waitThread : ThreadId) (s : Manager) : Except Fault Manager :=
  if s.status waitThread = .initializing then
    if s.waiter waitThread ≠ none then .error .multipleWaiters
    else
      let s := (s.setWaiter waitThread (some thread)).setPhase thread (.starting waitThread)
      .ok { s with signalled := update s.signalled thread false }
  else .ok s

def signalWaiter (time : ℕ) (s : Manager) : Manager :=
  (s.waiter thread).elim s fun waiter => (s.signal waiter time).setWaiter thread none

def setStarted (s : Manager) : Manager :=
  let s := s.setPhase thread .running
  if s.core thread = none then
    { s with threads :=
        { s.threads with
          status := update s.threads.status thread .stalled
          stalledReason := update s.threads.stalledReason thread .unscheduled } }
  else s.setStatus thread .running

def onThreadStart (time : ℕ) (s : Manager) : Manager :=
  (s.setStarted thread).signalWaiter thread time

def wakeUpWaiter (time : ℕ) (s : Manager) : Manager :=
  (s.waiter thread).elim s fun waiter =>
    (s.resumeThread waiter (some thread) time).setWaiter thread none

def onThreadExit (time : ℕ) (s : Manager) : Except Fault Manager :=
  if s.core thread = none then .error .endedWithoutCore
  else if s.status thread ≠ .running then .error .endedWhileNotRunning
  else
    .ok ((((s.setStatus thread .idle).setPhase thread .exited).wakeUpWaiter thread time).setCore
      thread none)

/-- `joinThread`, up to its return or its `wait`. -/
def joinThread (thread other : ThreadId) (s : Manager) : Except Fault Manager :=
  if s.status other = .idle then .ok (s.arrive thread (some other))
  else if s.core thread = none then .error .noCore
  else if s.waiter other ≠ none then .error .multipleWaiters
  else .ok ((s.setWaiter other (some thread)).stallThread thread .join (.joining other))

def moveThread (core : Option CoreId) (time : ℕ) (s : Manager) : Manager :=
  if core ≠ none ∧ s.core thread = none ∧ s.status thread = .stalled ∧
      s.threads.stalledReason thread = .unscheduled then
    (s.resumeThread thread none time).setCore thread core
  else s.setCore thread core

/-- `Thread::wait` returns, and the call goes on. -/
def wake (s : Manager) : Manager :=
  match s.phase thread with
  | .starting _ => s.arrive thread none
  | .joining other => s.reschedule thread (some other)
  | .unscheduled joinThread => s.reschedule thread joinThread
  | _ => s

end Manager

/-! ## Steps -/

inductive Event where
  | spawn (core : Option CoreId)
  | waitForStart (thread waitThread : ThreadId)
  | start (thread : ThreadId) (time : ℕ)
  | exit (thread : ThreadId) (time : ℕ)
  | join (thread joinThread : ThreadId)
  | move (thread : ThreadId) (core : Option CoreId) (time : ℕ)
  | reschedule (thread : ThreadId)
  | wake (thread : ThreadId)

def Manager.handle (s : Manager) : Event → Except Fault Manager
  | .spawn core => .ok (s.spawnThread core)
  | .waitForStart thread waitThread => s.waitForThreadStart thread waitThread
  | .start thread time => .ok (s.onThreadStart thread time)
  | .exit thread time => s.onThreadExit thread time
  | .join thread joinThread => s.joinThread thread joinThread
  | .move thread core time => .ok (s.moveThread thread core time)
  | .reschedule thread => .ok (s.reschedule thread none)
  | .wake thread => .ok (s.wake thread)

def step (s : Except Fault Manager) (event : Event) : Except Fault Manager :=
  s.bind fun s => s.handle event

/-- What threads can do: each starts once, calls are made by threads that run, for threads that
there are, and `Thread::wait` returns after a signal. -/
def Manager.Permits (s : Manager) : Event → Prop
  | .spawn _ => True
  | .waitForStart thread waitThread =>
    s.phase thread = .running ∧ s.status thread = .running ∧ waitThread < s.numThreads
  | .start thread _ => s.phase thread = .created
  | .exit thread _ => s.phase thread = .running
  | .join thread joinThread =>
    s.phase thread = .running ∧ s.status thread = .running ∧ joinThread < s.numThreads
  | .move thread _ _ => thread < s.numThreads
  | .reschedule thread => s.phase thread = .running
  | .wake thread => (s.phase thread).waits ∧ s.signalled thread

def Manager.Started (s : Manager) : Event → Prop
  | .join _ joinThread => s.status joinThread ≠ .initializing
  | _ => True

def Permitted (s : Except Fault Manager) (event : Event) : Prop :=
  ∀ s', s = .ok s' → s'.Permits event

def Started (s : Except Fault Manager) (event : Event) : Prop :=
  ∀ s', s = .ok s' → s'.Started event

end Sniper.System.ThreadManager
