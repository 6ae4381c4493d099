import Sniper.System.Threads

/-!
# Mutexes and condition variables

`SyncServer` simulates the mutexes and condition variables of the application. Every call holds
the lock of the thread manager until it returns or its thread stalls, so calls are steps. A
thread that stalls goes on when it is resumed, with nothing left to do but to return.
-/

namespace Sniper.System.Sync

/-- The address of a `carbon_mutex_t`. -/
abbrev MutexId := ℕ

/-- The address of a `carbon_cond_t`. -/
abbrev CondId := ℕ

structure SimMutex where
  owner : Option ThreadId
  waiting : List ThreadId
  deriving DecidableEq, Repr

def SimMutex.new : SimMutex := ⟨none, []⟩

def SimMutex.isLocked (mutex : SimMutex) (thread : ThreadId) : Bool :=
  mutex.owner.elim false fun owner => owner ≠ thread

structure CondWaiter where
  thread : ThreadId
  mutex : MutexId
  deriving DecidableEq, Repr

inductive Fault where
  /-- `assert(m_owner == thread_id)`. -/
  | notOwner
  /-- "Invalid mutex id passed". -/
  | invalidMutex
  deriving DecidableEq, Repr

structure Server where
  /-- The mutexes that were seen. -/
  mutexes : MutexId → Option SimMutex
  /-- The queues of the condition variables; one that was not seen has nobody waiting. -/
  conds : CondId → List CondWaiter
  threads : Threads

namespace Server

def start : Server := ⟨fun _ => none, fun _ => [], .start⟩

def mutex (s : Server) (mux : MutexId) : SimMutex := (s.mutexes mux).getD .new

def setMutex (mux : MutexId) (mutex : SimMutex) (s : Server) : Server :=
  { s with mutexes := Function.update s.mutexes mux (some mutex) }

def setCond (cond : CondId) (waiting : List CondWaiter) (s : Server) : Server :=
  { s with conds := Function.update s.conds cond waiting }

def stall (thread : ThreadId) (reason : StallType) (s : Server) : Server :=
  { s with threads := s.threads.stallThread thread reason }

def resume (thread threadBy : ThreadId) (time : ℕ) (s : Server) : Server :=
  { s with threads := s.threads.resumeThread thread (some threadBy) time false }

/-- `getMutex`, which makes a new mutex when it may. -/
def getMutex (mux : MutexId) (canCreate : Bool) (s : Server) : Except Fault Server :=
  if (s.mutexes mux).isSome then .ok s
  else if canCreate then .ok (s.setMutex mux .new)
  else .error .invalidMutex

/-! ## `SimMutex` -/

/-- `SimMutex::lock`: the time when the thread owns the lock, unless it stalls. -/
def lock (mux : MutexId) (thread : ThreadId) (time : ℕ) (s : Server) : Server × Option ℕ :=
  let mutex := s.mutex mux
  if mutex.owner = none then (s.setMutex mux { mutex with owner := some thread }, some time)
  else
    ((s.setMutex mux { mutex with waiting := mutex.waiting ++ [thread] }).stall thread .mutex, none)

/-- `SimMutex::lock_async`: whether the thread got the lock. -/
def lockAsync (mux : MutexId) (thread threadBy : ThreadId) (time : ℕ) (s : Server) :
    Server × Bool :=
  let mutex := s.mutex mux
  if mutex.owner = none then
    ((s.setMutex mux { mutex with owner := some thread }).resume thread threadBy time, true)
  else (s.setMutex mux { mutex with waiting := mutex.waiting ++ [thread] }, false)

/-- `SimMutex::unlock`, with the next owner. -/
def unlock (mux : MutexId) (thread : ThreadId) (time : ℕ) (s : Server) :
    Except Fault (Server × Option ThreadId) :=
  let mutex := s.mutex mux
  if mutex.owner ≠ some thread then .error .notOwner
  else
    match mutex.waiting with
    | [] => .ok (s.setMutex mux { mutex with owner := none }, none)
    | waiter :: waiting =>
      .ok ((s.setMutex mux ⟨some waiter, waiting⟩).resume waiter thread time, some waiter)

/-! ## `SimCond` -/

/-- `SimCond::wait`. -/
def wait (cond : CondId) (thread : ThreadId) (time : ℕ) (mux : MutexId) (s : Server) :
    Except Fault Server :=
  (s.unlock mux thread time).map fun unlocked =>
    (unlocked.1.setCond cond (unlocked.1.conds cond ++ [⟨thread, mux⟩])).stall thread .cond

def wakeOne (cond : CondId) (woken : CondWaiter) (waiting : List CondWaiter)
    (thread : ThreadId) (time : ℕ) (s : Server) : Server × Bool :=
  (s.setCond cond waiting).lockAsync woken.mutex woken.thread thread time

/-- `SimCond::signal`, with the thread that was woken up and has its lock. -/
def signal (cond : CondId) (thread : ThreadId) (time : ℕ) (s : Server) : Server × Option ThreadId :=
  match s.conds cond with
  | [] => (s, none)
  | woken :: waiting =>
    let result := s.wakeOne cond woken waiting thread time
    (result.1, if result.2 then some woken.thread else none)

/-- The loop of `SimCond::broadcast`, over what is left of the queue. -/
def broadcastLoop (cond : CondId) (thread : ThreadId) (time : ℕ) : List CondWaiter → Server → Server
  | [], s => s
  | woken :: waiting, s =>
    broadcastLoop cond thread time waiting (s.wakeOne cond woken waiting thread time).1

def broadcast (cond : CondId) (thread : ThreadId) (time : ℕ) (s : Server) : Server :=
  s.broadcastLoop cond thread time (s.conds cond)

/-! ## `SyncServer` -/

/-- `mutexLock`: the time and whether the thread has the lock, unless it stalls. -/
def mutexLock (rescheduleCost : ℕ) (thread : ThreadId) (mux : MutexId) (tryLock : Bool)
    (time : ℕ) (s : Server) : Except Fault (Server × Option (ℕ × Bool)) :=
  (s.getMutex mux true).map fun s =>
    if tryLock ∧ (s.mutex mux).isLocked thread then (s, some (time, false))
    else
      let locked := s.lock mux thread time
      (locked.1, locked.2.map fun timeEnd => (timeEnd + rescheduleCost, true))

/-- `mutexUnlock`, with the time after it. -/
def mutexUnlock (rescheduleCost : ℕ) (thread : ThreadId) (mux : MutexId) (time : ℕ)
    (s : Server) : Except Fault (Server × ℕ) :=
  (s.getMutex mux false).bind fun s =>
    (s.unlock mux thread (time + rescheduleCost)).map fun unlocked =>
      (unlocked.1, time + if unlocked.2 = none then 0 else rescheduleCost)

def condWait (thread : ThreadId) (cond : CondId) (mux : MutexId) (time : ℕ) (s : Server) :
    Except Fault Server :=
  (s.getMutex mux true).bind fun s => s.wait cond thread time mux

def condSignal (thread : ThreadId) (cond : CondId) (time : ℕ) (s : Server) : Server :=
  (s.signal cond thread time).1

def condBroadcast (thread : ThreadId) (cond : CondId) (time : ℕ) (s : Server) : Server :=
  s.broadcast cond thread time

end Server

/-! ## Calls -/

inductive Call where
  | mutexLock (thread : ThreadId) (mux : MutexId) (tryLock : Bool) (time : ℕ)
  | mutexUnlock (thread : ThreadId) (mux : MutexId) (time : ℕ)
  | condWait (thread : ThreadId) (cond : CondId) (mux : MutexId) (time : ℕ)
  | condSignal (thread : ThreadId) (cond : CondId) (time : ℕ)
  | condBroadcast (thread : ThreadId) (cond : CondId) (time : ℕ)

def Server.handle (rescheduleCost : ℕ) (s : Server) : Call → Except Fault Server
  | .mutexLock thread mux tryLock time =>
    (s.mutexLock rescheduleCost thread mux tryLock time).map Prod.fst
  | .mutexUnlock thread mux time => (s.mutexUnlock rescheduleCost thread mux time).map Prod.fst
  | .condWait thread cond mux time => s.condWait thread cond mux time
  | .condSignal thread cond time => .ok (s.condSignal thread cond time)
  | .condBroadcast thread cond time => .ok (s.condBroadcast thread cond time)

def step (rescheduleCost : ℕ) (s : Except Fault Server) (call : Call) : Except Fault Server :=
  s.bind fun s => s.handle rescheduleCost call

end Sniper.System.Sync
