import Mathlib.Data.Nat.Notation
import Mathlib.Logic.Function.Basic

/-!
# The trace manager

`TraceManager` counts the threads of an application that are still active. When the last one ends,
the application has completed a run, and the manager decides how to go on. A thread in `exit_group`
stops the other threads of its application and signals their end in their place.

`signalDone` and `createThread` hold a lock and are steps. `endApplication` holds none: each round
of its loop takes two steps, in which the other threads may come between.
-/

namespace Sniper.TraceFrontend

abbrev AppId := ℕ

/-- An index into `m_threads`. -/
abbrev ThreadIndex := ℕ

/-- Where a thread is in `TraceThread::run`. -/
inductive Position where
  | running
  /-- In `endApplication`, before the round for a thread. -/
  | ending (index : ThreadIndex)
  /-- In `endApplication`, between stopping a thread and signalling its end. -/
  | aborting (index : ThreadIndex)
  /-- Before its own `signalDone`, with the argument. -/
  | leaving (aborted : Bool)
  | exited
  deriving DecidableEq, Repr

structure TraceThread where
  app : AppId
  stop : Bool
  stopped : Bool
  position : Position
  deriving DecidableEq, Repr

structure AppInfo where
  threadCount : ℕ
  numThreads : ℕ
  numRuns : ℕ
  deriving DecidableEq, Repr

inductive Decision where
  | stop
  | restart
  | goOn
  deriving DecidableEq, Repr

structure Config where
  stopWithFirstApp : Bool
  appRestart : Bool
  deriving DecidableEq, Repr

structure Manager where
  threads : ThreadIndex → TraceThread
  /-- The size of `m_threads`. -/
  size : ℕ
  appInfo : AppId → AppInfo
  numApps : ℕ
  numAppsNonfinish : ℕ
  /-- How often `m_done` was signalled. -/
  done : ℕ
  /-- The runs of an application that were begun. -/
  begun : AppId → ℕ
  /-- The decisions, in their order. -/
  decisions : List (AppId × Decision)

namespace Manager

def setThread (index : ThreadIndex) (thread : TraceThread) (s : Manager) : Manager :=
  { s with threads := Function.update s.threads index thread }

def setInfo (app : AppId) (info : AppInfo) (s : Manager) : Manager :=
  { s with appInfo := Function.update s.appInfo app info }

def setPosition (index : ThreadIndex) (position : Position) (s : Manager) : Manager :=
  s.setThread index { s.threads index with position := position }

/-- A new entry of `m_threads`. -/
def addThread (app : AppId) (s : Manager) : Manager :=
  { s.setThread s.size ⟨app, false, false, .running⟩ with size := s.size + 1 }

/-- `newThread` for the first thread of a run. -/
def newFirstThread (app : AppId) (s : Manager) : Manager :=
  let s := s.setInfo app { s.appInfo app with numThreads := 1, threadCount := 1 }
  { s with begun := Function.update s.begun app (s.begun app + 1) }.addThread app

/-- `newThread` for the other ones. -/
def newThread (app : AppId) (s : Manager) : Manager :=
  let info := s.appInfo app
  (s.setInfo app { info with
    numThreads := info.numThreads + 1
    threadCount := info.threadCount + 1 }).addThread app

def createApplication (s : Manager) : Manager :=
  let app := s.numApps
  newFirstThread app <| setInfo app ⟨1, 1, 0⟩ { s with
    numApps := s.numApps + 1
    numAppsNonfinish := s.numAppsNonfinish + 1 }

/-- `TraceManager::stop`. -/
def stopAll (s : Manager) : Manager :=
  { s with
    threads := fun index => { s.threads index with stop := true }
    done := s.done + 1 }

def decide (cfg : Config) (s : Manager) : Decision :=
  if cfg.stopWithFirstApp then .stop
  else if s.numAppsNonfinish = 0 then .stop
  else if cfg.appRestart then .restart
  else .goOn

def carryOut (app : AppId) (decision : Decision) (s : Manager) : Manager :=
  match decision with
  | .stop => s.stopAll
  | .restart => s.newFirstThread app
  | .goOn => s

def countRun (app : AppId) (s : Manager) : Manager :=
  let info := s.appInfo app
  { s.setInfo app { info with numRuns := info.numRuns + 1 } with
    numAppsNonfinish :=
      if info.numRuns + 1 = 1 then s.numAppsNonfinish - 1 else s.numAppsNonfinish }

def finishRun (cfg : Config) (app : AppId) (s : Manager) : Manager :=
  let s := s.countRun app
  let decision := s.decide cfg
  carryOut app decision { s with decisions := s.decisions ++ [(app, decision)] }

def markStopped (index : ThreadIndex) (s : Manager) : Manager :=
  let thread := s.threads index
  let info := s.appInfo thread.app
  (s.setThread index { thread with stopped := true }).setInfo thread.app
    { info with numThreads := info.numThreads - 1 }

def signalDone (cfg : Config) (index : ThreadIndex) (aborted : Bool) (s : Manager) : Manager :=
  let thread := s.threads index
  if thread.stopped then s
  else
    let s := s.markStopped index
    if aborted = false ∧ (s.appInfo thread.app).numThreads = 0 then s.finishRun cfg thread.app
    else s

/-- The first half of a round of `endApplication`, for the caller and the thread it is at. -/
def endRound (caller index : ThreadIndex) (s : Manager) : Manager :=
  if index < s.size then
    if (s.threads index).app = (s.threads caller).app ∧ index ≠ caller then
      (s.setThread index { s.threads index with stop := true }).setPosition caller (.aborting index)
    else s.setPosition caller (.ending (index + 1))
  else s.setPosition caller .running

/-- `init`: every application has its first thread. -/
def init : ℕ → Manager → Manager
  | 0, s => s
  | apps + 1, s => newFirstThread apps (init apps s)

def start (numApps : ℕ) : Manager :=
  init numApps {
    threads := fun _ => ⟨0, false, false, .running⟩
    size := 0
    appInfo := fun _ => ⟨1, 1, 0⟩
    numApps := numApps
    numAppsNonfinish := numApps
    done := 0
    begun := fun _ => 0
    decisions := [] }

end Manager

/-! ## Steps -/

inductive Action where
  | exitGroup
  | newThread
  | fork
  /-- The trace is over or the thread was told to stop. -/
  | leave
  deriving DecidableEq, Repr

inductive Event where
  | act (thread : ThreadIndex) (action : Action)
  /-- A thread in `endApplication` or before `signalDone` goes on. -/
  | goOn (thread : ThreadIndex)
  deriving DecidableEq, Repr

def Manager.act (s : Manager) (thread : ThreadIndex) : Action → Manager
  | .exitGroup => s.setPosition thread (.ending 0)
  | .newThread => s.newThread (s.threads thread).app
  | .fork => s.createApplication
  | .leave => s.setPosition thread (.leaving (s.threads thread).stop)

def Manager.goOn (cfg : Config) (s : Manager) (thread : ThreadIndex) : Position → Manager
  | .running => s
  | .ending index => s.endRound thread index
  | .aborting index => (s.signalDone cfg index true).setPosition thread (.ending (index + 1))
  | .leaving aborted => (s.signalDone cfg thread aborted).setPosition thread .exited
  | .exited => s

/-- A step of one thread; nothing happens when it cannot take it. -/
def step (cfg : Config) (s : Manager) : Event → Manager
  | .act thread action =>
    if thread < s.size ∧ (s.threads thread).position = .running then s.act thread action else s
  | .goOn thread => if thread < s.size then s.goOn cfg thread (s.threads thread).position else s

end Sniper.TraceFrontend
