import Mathlib.Data.List.FinRange
import Sniper.System.Threads

/-!
# The barrier server

`BarrierSyncServer` keeps the clocks of the cores together: a core whose clock has reached
the next barrier waits until all running cores have. The cores and threads belong to other
components, so each call comes with what these would answer. Periodic hooks do not call back
into the server. Its waits and signals on condition variables are not observed by it: here a
core has been signalled once it is no longer in `toRelease`.
-/

namespace Sniper.System.Barrier

open Function

structure Machine (n : ℕ) where
  coreState : Fin n → CoreState
  coreThread : Fin n → Option ThreadId
  isThreadRunning : ThreadId → Bool

structure Config (n : ℕ) where
  barrierInterval : ℕ
  numHostCores : ℕ
  /-- What `random_shuffle` makes of `m_to_release`. -/
  shuffle : List (Fin n) → List (Fin n)

inductive Fault where
  /-- "Core is not running or initializing". -/
  | notRunning
  /-- "Core is running but has no thread". -/
  | noThread
  /-- "Core or its sibling is already in the barrier". -/
  | inBarrier
  /-- "Reached the barrier while some threads haven't even restarted?" -/
  | notRestarted
  /-- The release loop is still going on. -/
  | releasing
  deriving DecidableEq, Repr

structure Server (n : ℕ) where
  nextBarrierTime : ℕ
  localClock : Fin n → ℕ
  acquired : Fin n → Bool
  toRelease : List (Fin n)
  coreGroup : Fin n → Option (Fin n)
  coreThread : Fin n → Option ThreadId
  globalTime : ℕ
  fastforward : Bool
  disable : Bool

variable {n : ℕ} (cfg : Config n)

def Server.create : Server n where
  nextBarrierTime := cfg.barrierInterval
  localClock := fun _ => 0
  acquired := fun _ => false
  toRelease := []
  coreGroup := fun _ => none
  coreThread := fun _ => none
  globalTime := 0
  fastforward := false
  disable := false

/-! ## Reaching the barrier -/

variable (machine : Machine n)

/-- `isCoreRunning` without siblings. -/
def Machine.isCoreRunning (core : Fin n) : Except Fault Bool :=
  if machine.coreState core = .running then
    match machine.coreThread core with
    | none => .error .noThread
    | some thread => .ok (machine.isThreadRunning thread)
  else .ok false

/-- `isCoreRunning` of the cores of a group. -/
def anySiblingRunning (machine : Machine n) (s : Server n) (core : Fin n) :
    List (Fin n) → Except Fault Bool
  | [] => .ok false
  | sibling :: siblings =>
    if s.coreGroup sibling = some core then
      (machine.isCoreRunning sibling).bind fun running =>
        if running then .ok true else anySiblingRunning machine s core siblings
    else anySiblingRunning machine s core siblings

def isCoreRunning (s : Server n) (core : Fin n) : Except Fault Bool :=
  (machine.isCoreRunning core).bind fun running =>
    if running then .ok true
    else if s.fastforward then .ok false
    else anySiblingRunning machine s core (List.finRange n)

/-- The loop of `isBarrierReached`. -/
def reachedLoop (machine : Machine n) (s : Server n) : List (Fin n) → Bool → Except Fault Bool
  | [], reached => .ok reached
  | core :: cores, reached =>
    if s.fastforward then
      if s.acquired core then reachedLoop machine s cores true
      else (isCoreRunning machine s core).bind fun running =>
        if running then .ok false else reachedLoop machine s cores reached
    else if s.coreGroup core ≠ none then reachedLoop machine s cores reached
    else (isCoreRunning machine s core).bind fun running =>
      if running then
        if s.localClock core < s.nextBarrierTime then .ok false
        else reachedLoop machine s cores true
      else reachedLoop machine s cores reached

def isBarrierReached (s : Server n) : Except Fault Bool :=
  reachedLoop machine s (List.finRange n) false

/-! ## Releasing -/

/-- `doRelease`: the last `count` entries of the list are signalled, all of them for -1. -/
def doRelease (count : Option ℕ) (s : Server n) : Server n :=
  { s with toRelease :=
      count.elim [] fun count => s.toRelease.take (s.toRelease.length - count) }

/-- One core in a round of the release loop, with `must_wait` and `core_resumed`. -/
def releaseCore (caller : Option ThreadId) (state : Server n × Bool × Bool) (core : Fin n) :
    Server n × Bool × Bool :=
  let (s, mustWait, _) := state
  if s.localClock core < s.nextBarrierTime ∧ s.acquired core then
    let s := { s with acquired := update s.acquired core false }
    if s.coreThread core = caller then (s, false, true)
    else ({ s with toRelease := s.toRelease ++ [core] }, mustWait, true)
  else state

def advanceBarrier (s : Server n) : Server n :=
  { s with
    globalTime := s.nextBarrierTime
    nextBarrierTime := s.nextBarrierTime + cfg.barrierInterval }

/-- One round of the loop of `barrierRelease`. -/
def releaseRound (caller : Option ThreadId) (s : Server n) (mustWait : Bool) :
    Server n × Bool × Bool :=
  (List.finRange n).foldl (releaseCore caller) (advanceBarrier cfg s, mustWait, false)

/-- The loop of `barrierRelease`; `none` when it returns because the barrier is disabled. -/
def releaseLoop (cfg : Config n) (caller : Option ThreadId) :
    ℕ → Server n → Bool → Except Fault (Server n × Option Bool)
  | 0, _, _ => .error .releasing
  | fuel + 1, s, mustWait =>
    if s.disable then .ok ({ s with globalTime := s.nextBarrierTime }, none)
    else
      let round := releaseRound cfg caller s mustWait
      if round.2.2 then .ok (round.1, some round.2.1)
      else releaseLoop cfg caller fuel round.1 round.2.1

def skipTimeslots (s : Server n) : Server n :=
  if s.fastforward then
    { s with nextBarrierTime :=
        (List.finRange n).foldl (fun next core => max next (s.localClock core)) s.nextBarrierTime }
  else s

/-- `barrierRelease`, and whether its caller must wait. `fuel` bounds the rounds. -/
def barrierRelease (fuel : ℕ) (caller : Option ThreadId) (s : Server n) :
    Except Fault (Server n × Bool) :=
  if s.toRelease ≠ [] then .error .notRestarted
  else (releaseLoop cfg caller fuel (skipTimeslots s) true).map fun result =>
    result.2.elim (result.1, false) fun mustWait =>
      (doRelease (if s.fastforward then none else some cfg.numHostCores)
        { result.1 with toRelease := cfg.shuffle result.1.toRelease }, mustWait)

/-! ## Calls -/

/-- `synchronize` up to the test whether the barrier is reached: `none` when it returns
before. -/
def arrive (s : Server n) (core : Fin n) (time : ℕ) : Except Fault (Option (Server n × ThreadId)) :=
  if s.disable then .ok none
  else
    let master := if s.fastforward then core else (s.coreGroup core).getD core
    match machine.coreThread core with
    | none => .error .noThread
    | some thread =>
      if machine.coreState core ≠ .running ∧ machine.coreState core ≠ .initializing then
        .error .notRunning
      else if s.acquired master then .error .inBarrier
      else if time < s.nextBarrierTime ∧ ¬ s.fastforward then .ok none
      else
        let s := doRelease (some 1) s
        .ok (some ({ s with
          localClock := update s.localClock master time
          acquired := update s.acquired master true
          coreThread := update s.coreThread master (some thread) }, thread))

/-- `barrierRelease`, if the barrier is reached. -/
def releaseIfReached (fuel : ℕ) (machine : Machine n) (caller : Option ThreadId)
    (s : Server n) : Except Fault (Server n) :=
  (isBarrierReached machine s).bind fun reached =>
    if reached then (barrierRelease cfg fuel caller s).map Prod.fst else .ok s

def synchronize (fuel : ℕ) (machine : Machine n) (s : Server n) (core : Fin n)
    (time : ℕ) : Except Fault (Server n) :=
  (arrive machine s core time).bind fun arrived =>
    arrived.elim (.ok s) fun entered =>
      releaseIfReached cfg fuel machine (some entered.2) entered.1

def releaseThread (thread : ThreadId) (s : Server n) : Server n :=
  doRelease (some 1) { s with
      localClock := fun core =>
        if s.acquired core ∧ s.coreThread core = some thread then 0 else s.localClock core }

def signal (fuel : ℕ) (machine : Machine n) (s : Server n) : Except Fault (Server n) :=
  if s.disable then .ok s else releaseIfReached cfg fuel machine none s

def abortBarrier (s : Server n) : Server n := { s with acquired := fun _ => false }

def setDisable (disable : Bool) (s : Server n) : Server n :=
  let s := { s with disable := disable }
  if disable then abortBarrier s else s

/-! ## Runs -/

inductive Event (n : ℕ) where
  /-- Cores and threads change their states. -/
  | machine (machine : Machine n)
  | synchronize (core : Fin n) (time : ℕ)
  | threadStall (thread : ThreadId)
  | threadExit (thread : ThreadId)
  | threadMigrate (thread : ThreadId)
  | setDisable (disable : Bool)

structure State (n : ℕ) where
  server : Server n
  machine : Machine n

def State.start : State n where
  server := .create cfg
  machine := ⟨fun _ => .idle, fun _ => none, fun _ => false⟩

def State.handle (fuel : ℕ) (state : State n) : Event n → Except Fault (State n)
  | .machine machine => .ok { state with machine := machine }
  | .synchronize core time =>
    (Barrier.synchronize cfg fuel state.machine state.server core time).map
      fun server => { state with server := server }
  | .threadStall thread | .threadExit thread =>
    (signal cfg fuel state.machine (releaseThread thread state.server)).map
      fun server => { state with server := server }
  | .threadMigrate thread => .ok { state with server := releaseThread thread state.server }
  | .setDisable disable => .ok { state with server := Barrier.setDisable disable state.server }

/-- The step of a run, which ends with a call that does not return. -/
def step (fuel : ℕ) (state : Except Fault (State n)) (event : Event n) : Except Fault (State n) :=
  state.bind fun state => state.handle cfg fuel event

end Sniper.System.Barrier
