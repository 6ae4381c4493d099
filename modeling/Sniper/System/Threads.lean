import Mathlib.Data.Nat.Notation
import Mathlib.Logic.Function.Basic

/-!
# Threads

The part of `ThreadManager` that the servers use: a thread is stalled, and resumed by another
one. The hooks that go with this do not call back into the servers.
-/

namespace Sniper.System

open Function

abbrev ThreadId := ℕ

/-- `Core::State`, also the status of a thread. -/
inductive CoreState where
  | running
  | initializing
  | stalled
  | sleeping
  | wakingUp
  | idle
  | broken
  deriving DecidableEq, Repr

/-- `ThreadManager::stall_type_t`. -/
inductive StallType where
  | unscheduled
  | broken
  | join
  | mutex
  | cond
  | barrier
  | futex
  | pause
  | sleep
  | syscall
  deriving DecidableEq, Repr

/-- A call of `resumeThread`. The message is a flag; it is `NULL` when none is given. -/
structure Resume where
  thread : ThreadId
  threadBy : Option ThreadId
  time : ℕ
  msg : Bool
  deriving DecidableEq, Repr

structure Threads where
  status : ThreadId → CoreState
  stalledReason : ThreadId → StallType
  wakeupTime : ThreadId → ℕ
  wakeupMsg : ThreadId → Bool
  /-- The calls of `resumeThread`, in their order. -/
  resumed : List Resume

namespace Threads

def start : Threads where
  status := fun _ => .running
  stalledReason := fun _ => .unscheduled
  wakeupTime := fun _ => 0
  wakeupMsg := fun _ => false
  resumed := []

/-- `stallThread`, up to the point where the thread waits. -/
def stallThread (thread : ThreadId) (reason : StallType) (threads : Threads) : Threads :=
  { threads with
    status := update threads.status thread .stalled
    stalledReason := update threads.stalledReason thread reason
    wakeupMsg := update threads.wakeupMsg thread false }

def resumeThread (thread : ThreadId) (threadBy : Option ThreadId) (time : ℕ) (msg : Bool)
    (threads : Threads) : Threads :=
  { threads with
    status := update threads.status thread .running
    wakeupTime := update threads.wakeupTime thread time
    wakeupMsg := update threads.wakeupMsg thread msg
    resumed := threads.resumed ++ [⟨thread, threadBy, time, msg⟩] }

def Stalled (threads : Threads) (thread : ThreadId) : Prop := threads.status thread = .stalled

instance (threads : Threads) (thread : ThreadId) : Decidable (threads.Stalled thread) :=
  inferInstanceAs (Decidable (_ = _))

variable {other thread : ThreadId} {threads : Threads}

lemma stalled_stallThread (reason : StallType) :
    (threads.stallThread thread reason).Stalled other ↔ threads.Stalled other ∨ other = thread := by
  rw [Stalled, stallThread]
  by_cases same : other = thread
  · simp [same]
  · simp [same, Stalled]

lemma stalled_resumeThread (threadBy : Option ThreadId) (time : ℕ) (msg : Bool) :
    (threads.resumeThread thread threadBy time msg).Stalled other ↔
      threads.Stalled other ∧ other ≠ thread := by
  rw [Stalled, resumeThread]
  by_cases same : other = thread
  · simp [same]
  · simp [same, Stalled]

end Threads

end Sniper.System
