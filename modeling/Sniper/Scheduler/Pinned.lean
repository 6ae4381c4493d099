import Mathlib.Data.List.FinRange
import Sniper.Misc.SubsecondTime
import Sniper.System.Threads

/-!
# The pinned scheduler

`SchedulerPinnedBase` decides which thread runs on which core. It is called through hooks of the
thread manager and through the system calls of the application. When it moves a thread onto a
core, the thread manager may resume the thread, and the hook for this calls the scheduler again.
The calls nest as deeply as there are free cores; the depth is explicit here.
-/

namespace Sniper.Scheduler

open Sniper.System Function

variable {n : ℕ}

inductive Fault where
  /-- "Invalid thread_id". -/
  | invalidThread
  /-- "Invalid core found in sched_setaffinity() mask". -/
  | invalidCore
  /-- The calls are nested too deeply. -/
  | nesting
  deriving DecidableEq, Repr

structure ThreadInfo (n : ℕ) where
  hasAffinity : Bool
  explicitAffinity : Bool
  coreAffinity : Fin n → Bool
  coreRunning : Option (Fin n)
  lastScheduledIn : ℕ
  lastScheduledOut : ℕ

namespace ThreadInfo

def new : ThreadInfo n := ⟨false, false, fun _ => false, none, 0, 0⟩

def isRunning (info : ThreadInfo n) : Bool := info.coreRunning.isSome

def clearAffinity (info : ThreadInfo n) : ThreadInfo n :=
  { info with coreAffinity := fun _ => false }

def addAffinity (info : ThreadInfo n) (core : Fin n) : ThreadInfo n :=
  { info with
    coreAffinity := update info.coreAffinity core true
    hasAffinity := true }

end ThreadInfo

/-- `SchedulerPinnedBase`, with the part of the thread manager that it sees. -/
structure Pinned (n : ℕ) where
  quantum : ℕ
  lastPeriodic : ℕ
  threadInfo : ThreadId → ThreadInfo n
  coreThreadRunning : Fin n → Option ThreadId
  quantumLeft : Fin n → ℕ
  /-- `m_threads_runnable`; threads that it has no room for are not runnable. -/
  threadsRunnable : ThreadId → Bool
  numRunnable : ℕ
  numThreads : ℕ
  threads : Threads
  /-- `Thread::getCore`. -/
  threadCore : ThreadId → Option (Fin n)

namespace Pinned

def start (quantum : ℕ) : Pinned n where
  quantum := quantum
  lastPeriodic := 0
  threadInfo := fun _ => .new
  coreThreadRunning := fun _ => none
  quantumLeft := fun _ => 0
  threadsRunnable := fun _ => false
  numRunnable := 16
  numThreads := 0
  threads := .start
  threadCore := fun _ => none

variable (thread : ThreadId)

def setInfo (info : ThreadInfo n) (s : Pinned n) : Pinned n :=
  { s with threadInfo := update s.threadInfo thread info }

def setCoreThread (core : Fin n) (thread : Option ThreadId) (s : Pinned n) : Pinned n :=
  { s with coreThreadRunning := update s.coreThreadRunning core thread }

def setQuantumLeft (core : Fin n) (time : ℕ) (s : Pinned n) : Pinned n :=
  { s with quantumLeft := update s.quantumLeft core time }

def setRunnable (runnable : Bool) (s : Pinned n) : Pinned n :=
  { s with threadsRunnable := update s.threadsRunnable thread runnable }

def setThreadCore (core : Option (Fin n)) (s : Pinned n) : Pinned n :=
  { s with threadCore := update s.threadCore thread core }

/-- `getThreadFromID` finds the thread. -/
def findThread (s : Pinned n) : Except Fault (Pinned n) :=
  if thread < s.numThreads then .ok s else .error .invalidThread

/-- `findFreeCoreForThread`. -/
def findFreeCoreForThread (s : Pinned n) : Option (Fin n) :=
  (List.finRange n).find? fun core =>
    (s.threadInfo thread).coreAffinity core && (s.coreThreadRunning core).isNone

/-! ## `ThreadManager::moveThread` -/

abbrev Hook (n : ℕ) := ThreadId → ℕ → Pinned n → Except Fault (Pinned n)

/-- `ThreadManager::resumeThread`, with the hook for it. -/
def resumeThread (hook : Hook n) (thread : ThreadId) (time : ℕ) (s : Pinned n) :
    Except Fault (Pinned n) :=
  hook thread time { s with threads := s.threads.resumeThread thread none time false }

def moveThread (hook : Hook n) (thread : ThreadId) (core : Option (Fin n)) (time : ℕ)
    (s : Pinned n) : Except Fault (Pinned n) :=
  (s.findThread thread).bind fun s =>
    match core with
    | none => .ok (s.setThreadCore thread none)
    | some core =>
      let woken :=
        if s.threadCore thread = none ∧ s.threads.Stalled thread ∧
            s.threads.stalledReason thread = .unscheduled then
          s.resumeThread hook thread time
        else .ok s
      woken.map fun s => s.setThreadCore thread (some core)

/-! ## `reschedule` -/

def ps (time : ℕ) : ℤ := (time / 1000 : ℕ)

def isCandidate (core : Fin n) (thread : ThreadId) (s : Pinned n) : Bool :=
  (s.threadInfo thread).coreAffinity core && s.threadsRunnable thread &&
    (!(s.threadInfo thread).isRunning || (s.threadInfo thread).coreRunning = some core)

def score (time : ℕ) (info : ThreadInfo n) : ℤ :=
  if info.isRunning then ps info.lastScheduledIn - ps time
  else ps time - ps info.lastScheduledOut

def selectThread (time : ℕ) (core : Fin n) (s : Pinned n) : Option ThreadId × ℤ :=
  (List.range s.numRunnable).foldl (fun best thread =>
      if s.isCandidate core thread ∧ best.2 < score time (s.threadInfo thread) then
        (some thread, score time (s.threadInfo thread))
      else best)
    (none, -9223372036854775808)

def scheduleOut (hook : Hook n) (time : ℕ) (core : Fin n) (thread : ThreadId) (s : Pinned n) :
    Except Fault (Pinned n) :=
  moveThread hook thread none time <| s.setInfo thread { s.threadInfo thread with
    coreRunning := none
    lastScheduledOut := time + 1000 * core }

def scheduleIn (hook : Hook n) (time : ℕ) (core : Fin n) (thread : ThreadId) (s : Pinned n) :
    Except Fault (Pinned n) :=
  let s := (s.threadInfo thread).coreRunning.elim s fun other => s.setCoreThread other none
  moveThread hook thread (some core) time <| s.setInfo thread { s.threadInfo thread with
    coreRunning := some core
    lastScheduledIn := time }

/-- `reschedule`, for the hook that is called when a thread is resumed. -/
def rescheduleWith (hook : Hook n) (time : ℕ) (core : Fin n) (s : Pinned n) :
    Except Fault (Pinned n) :=
  let current := s.coreThreadRunning core
  if current.elim false fun thread => s.threads.status thread = .initializing then .ok s
  else
    let new := (s.selectThread time core).1
    let moved :=
      if current = new then .ok s
      else
        (current.elim (.ok s) fun thread => s.scheduleOut hook time core thread).bind fun s =>
          let s := s.setCoreThread core new
          new.elim (.ok s) fun thread => s.scheduleIn hook time core thread
    moved.map fun s => s.setQuantumLeft core s.quantum

/-- `threadResume`, for what reschedules a core. -/
def threadResumeWith (reschedule : ℕ → Fin n → Pinned n → Except Fault (Pinned n)) : Hook n :=
  fun thread time s =>
    let s := s.setRunnable thread true
    (s.findFreeCoreForThread thread).elim (.ok s) fun core => reschedule time core s

/-- `reschedule`, with calls of `threadResume` nested in it up to some depth. -/
def reschedule : ℕ → ℕ → Fin n → Pinned n → Except Fault (Pinned n)
  | 0, _, _, _ => .error .nesting
  | depth + 1, time, core, s => rescheduleWith (threadResumeWith (reschedule depth)) time core s

/-- `reschedule` in a call from outside: the number of cores bounds the depth. -/
def rescheduleCore (time : ℕ) (core : Fin n) (s : Pinned n) : Except Fault (Pinned n) :=
  reschedule (n + 1) time core s

def rescheduleFree (time : ℕ) (thread : ThreadId) (s : Pinned n) : Except Fault (Pinned n) :=
  (s.findFreeCoreForThread thread).elim (.ok s) fun core => s.rescheduleCore time core

def rescheduleRunning (time : ℕ) (thread : ThreadId) (s : Pinned n) : Except Fault (Pinned n) :=
  (s.threadInfo thread).coreRunning.elim (.ok s) fun core => s.rescheduleCore time core

/-! ## Calls -/

/-- `threadCreate`, with the affinity that the scheduler in use gives to a thread that has none. -/
def threadCreate (initialAffinity : List (Fin n)) (thread : ThreadId) (s : Pinned n) : Pinned n :=
  let info := s.threadInfo thread
  let info :=
    if info.hasAffinity then info
    else initialAffinity.foldl ThreadInfo.addAffinity info.clearAffinity
  let s := s.setInfo thread info
  match s.findFreeCoreForThread thread with
  | some core =>
    ((s.setInfo thread { info with coreRunning := some core }).setCoreThread core
      (some thread)).setQuantumLeft core s.quantum
  | none => s.setInfo thread { info with coreRunning := none }

/-- `createThread_unlocked`: the new thread has the next number. -/
def createThread (initialAffinity : List (Fin n)) (s : Pinned n) : Pinned n :=
  let thread := s.numThreads
  let threads := { s.threads with
    status := update s.threads.status thread .initializing }
  threadCreate initialAffinity thread { s with numThreads := s.numThreads + 1, threads := threads }

/-- `threadYield`, for the clocks of the cores. -/
def threadYield (clock : Fin n → ℕ) (thread : ThreadId) (s : Pinned n) : Except Fault (Pinned n) :=
  (s.threadInfo thread).coreRunning.elim (.ok s) fun core =>
    ((s.setQuantumLeft core 0).rescheduleCore (clock core) core).bind fun s =>
      if (s.threadInfo thread).coreAffinity core then .ok s
      else s.rescheduleFree (clock core) thread

def addMask (thread : ThreadId) : List ℕ → Pinned n → Except Fault (Pinned n)
  | [], s => .ok s
  | cpu :: mask, s =>
    if valid : cpu < n then
      addMask thread mask (s.setInfo thread ((s.threadInfo thread).addAffinity ⟨cpu, valid⟩))
    else .error .invalidCore

/-- The affinity part of `threadSetAffinity`. -/
def setAffinity (thread : ThreadId) (mask : Option (List ℕ)) (s : Pinned n) :
    Except Fault (Pinned n) :=
  let s := s.setInfo thread { s.threadInfo thread with explicitAffinity := true }
  match mask with
  | none =>
    .ok (s.setInfo thread ((List.finRange n).foldl ThreadInfo.addAffinity (s.threadInfo thread)))
  | some mask => addMask thread mask (s.setInfo thread (s.threadInfo thread).clearAffinity)

/-- `threadSetAffinity`, for the clocks of the cores and the global time. -/
def threadSetAffinity (clock : Fin n → ℕ) (globalTime : ℕ) (callingThread : Option ThreadId)
    (thread : ThreadId) (mask : Option (List ℕ)) (s : Pinned n) : Except Fault (Pinned n) :=
  (s.setAffinity thread mask).bind fun s =>
    if s.numThreads ≤ thread then .ok s
    else if callingThread = some thread then s.threadYield clock thread
    else
      match (s.threadInfo thread).coreRunning with
      | some core =>
        if (s.threadInfo thread).coreAffinity core then .ok s else .ok (s.setQuantumLeft core 0)
      | none =>
        if s.threadsRunnable thread then
          (s.findFreeCoreForThread thread).elim (.ok s) fun core =>
            s.rescheduleCore (max (clock core) globalTime) core
        else .ok s

/-- `m_threads_runnable` has room for the thread. -/
def makeRoom (s : Pinned n) : Pinned n :=
  { s with numRunnable := if s.numRunnable ≤ thread then s.numRunnable + 16 else s.numRunnable }

/-- `__threadStart`, after the thread was looked up. -/
def threadStart (time : ℕ) (s : Pinned n) : Except Fault (Pinned n) :=
  (s.findThread thread).bind fun s =>
    ((s.makeRoom thread).setRunnable thread true).rescheduleFree time thread

/-- `__threadStall`. -/
def threadStall (reason : StallType) (time : ℕ) (s : Pinned n) : Except Fault (Pinned n) :=
  if reason = .unscheduled then .ok s
  else (s.setRunnable thread false).rescheduleRunning time thread

/-- `__threadResume`, after the thread was looked up. -/
def threadResume (time : ℕ) (s : Pinned n) : Except Fault (Pinned n) :=
  (s.findThread thread).bind fun s => threadResumeWith rescheduleCore thread time s

/-- `__threadExit`. -/
def threadExit (time : ℕ) (s : Pinned n) : Except Fault (Pinned n) :=
  (s.setRunnable thread false).rescheduleRunning time thread

/-- The time since the last call of `periodic`, a difference of 64-bit values. -/
def delta (time : ℕ) (s : Pinned n) : ℕ := SubsecondTime.sub time s.lastPeriodic

/-- One core in `periodic`. -/
def periodicCore (time : ℕ) (s : Pinned n) (core : Fin n) : Except Fault (Pinned n) :=
  if s.delta time > s.quantumLeft core ∨ s.coreThreadRunning core = none then
    s.rescheduleCore time core
  else .ok (s.setQuantumLeft core (s.quantumLeft core - s.delta time))

/-- The loop of `periodic` over the cores. -/
def periodicLoop (time : ℕ) : List (Fin n) → Pinned n → Except Fault (Pinned n)
  | [], s => .ok s
  | core :: cores, s => (s.periodicCore time core).bind (periodicLoop time cores)

def periodic (time : ℕ) (s : Pinned n) : Except Fault (Pinned n) :=
  (s.periodicLoop time (List.finRange n)).map fun s => { s with lastPeriodic := time }

end Pinned

inductive Event (n : ℕ) where
  /-- What the threads and the thread manager do between two calls. -/
  | threads (threads : Threads) (threadCore : ThreadId → Option (Fin n))
  | create (initialAffinity : List (Fin n))
  | start (thread : ThreadId) (time : ℕ)
  | stall (thread : ThreadId) (reason : StallType) (time : ℕ)
  | resume (thread : ThreadId) (time : ℕ)
  | exit (thread : ThreadId) (time : ℕ)
  | yield (clock : Fin n → ℕ) (thread : ThreadId)
  | setAffinity (clock : Fin n → ℕ) (globalTime : ℕ) (callingThread : Option ThreadId)
      (thread : ThreadId) (mask : Option (List ℕ))
  | periodic (time : ℕ)

def Pinned.handle (s : Pinned n) : Event n → Except Fault (Pinned n)
  | .threads threads threadCore => .ok { s with threads := threads, threadCore := threadCore }
  | .create initialAffinity => .ok (s.createThread initialAffinity)
  | .start thread time => s.threadStart thread time
  | .stall thread reason time => s.threadStall thread reason time
  | .resume thread time => s.threadResume thread time
  | .exit thread time => s.threadExit thread time
  | .yield clock thread => s.threadYield clock thread
  | .setAffinity clock globalTime callingThread thread mask =>
    s.threadSetAffinity clock globalTime callingThread thread mask
  | .periodic time => s.periodic time

def step (s : Except Fault (Pinned n)) (event : Event n) : Except Fault (Pinned n) :=
  s.bind fun s => s.handle event

end Sniper.Scheduler
