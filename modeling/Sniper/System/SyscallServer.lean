import Mathlib.Data.Int.Notation
import Sniper.System.Threads

/-!
# Futexes

`SyscallServer` simulates the futexes of the application, and threads that sleep. As in the
servers for the other kinds of synchronisation a call holds the lock of the thread manager until
it returns or its thread stalls. A thread that was resumed takes one more step, in which its
call returns. What a call reads from the memory of the application comes with the call.
-/

namespace Sniper.System.Futex

/-- `IntPtr`. -/
abbrev Address := ℕ

/-- `SubsecondTime::MaxTime`. -/
def maxTime : ℕ := 0xffffffffffffffff

/-- `FUTEX_BITSET_MATCH_ANY`. -/
def matchAny : BitVec 32 := 0xffffffff

/-- `-EAGAIN`, and `-EWOULDBLOCK`. -/
def eagain : ℤ := -11

/-- `-ETIMEDOUT`. -/
def etimedout : ℤ := -110

/-- `SimFutex::Waiter`. -/
structure Waiter where
  thread : ThreadId
  mask : BitVec 32
  timeout : ℕ
  deriving DecidableEq, Repr

inductive Command where
  | wait
  | waitBitset
  | wake
  | wakeBitset
  | wakeOp
  | cmpRequeue
  deriving DecidableEq, Repr

/-- The command in the `op` argument, under `FUTEX_CMD_MASK`. -/
def Command.ofOp (op : BitVec 32) : Option Command :=
  match (op &&& 0x7f).toNat with
  | 0 => some .wait
  | 1 => some .wake
  | 4 => some .cmpRequeue
  | 5 => some .wakeOp
  | 9 => some .waitBitset
  | 10 => some .wakeBitset
  | _ => none

def Command.IsWait : Command → Prop
  | .wait | .waitBitset => True
  | _ => False

structure Args where
  uaddr : Address
  op : BitVec 32
  val : BitVec 32
  val2 : BitVec 32
  uaddr2 : Address
  val3 : BitVec 32
  deriving DecidableEq, Repr

/-- `struct timespec`. -/
structure Timespec where
  tvSec : BitVec 64
  tvNsec : BitVec 64
  deriving DecidableEq, Repr

/-- `timeout_val`, in femtoseconds, for the time at which the emulated clock starts. -/
def Timespec.timeoutVal (osEmuTimeStart : BitVec 64) (spec : Timespec) : ℕ :=
  ((spec.tvSec - osEmuTimeStart) * 1000000000000000 + spec.tvNsec * 1000000).toNat

/-- What a call finds: the page tables, the number of instructions that the caller's core has
executed, and the memory. -/
structure Env where
  va2pa : ThreadId → Address → Address
  instructionCount : ℕ
  /-- The value at `uaddr`. -/
  actVal : BitVec 32
  /-- The value at `uaddr2`. -/
  oldval : BitVec 32
  /-- The timeout, when one is given: the `timeoutVal` of what is at its address. -/
  timeout : Option ℕ

inductive Fault where
  /-- An `op` of which nothing is known. -/
  | unknownCommand
  | sameUaddr
  /-- "futexWakeOp: unknown op". -/
  | unknownOp
  /-- "futexWakeOp: unknown cmp". -/
  | unknownCmp
  /-- The loop that moves the waiters does not end. -/
  | requeueing
  deriving DecidableEq, Repr

inductive Place where
  | sleeping
  | futex (address : Address)
  deriving DecidableEq

structure Server where
  futexes : Address → List Waiter
  /-- The futexes that were seen. -/
  known : List Address
  sleeping : List Waiter
  threads : Threads

namespace Server

def start : Server := ⟨fun _ => [], [], [], .start⟩

def waiters (s : Server) : Place → List Waiter
  | .sleeping => s.sleeping
  | .futex address => s.futexes address

def setWaiters (waiting : List Waiter) (s : Server) : Place → Server
  | .sleeping => { s with sleeping := waiting }
  | .futex address => { s with futexes := Function.update s.futexes address waiting }

def enqueue (place : Place) (waiter : Waiter) (reason : StallType) (s : Server) : Server :=
  let s := s.setWaiters (s.waiters place ++ [waiter]) place
  { s with threads := s.threads.stallThread waiter.thread reason }

def wakeFirst (place : Place) (due : Waiter → Bool) (threadBy : Waiter → Option ThreadId)
    (time : ℕ) (msg : Bool) (s : Server) : Server × Option ThreadId :=
  match (s.waiters place).find? due with
  | none => (s, none)
  | some waiter =>
    let s := s.setWaiters ((s.waiters place).eraseP due) place
    ({ s with threads := s.threads.resumeThread waiter.thread (threadBy waiter) time msg },
      some waiter.thread)

/-! ## `SimFutex` -/

/-- `enqueueWaiter`, up to the point where the thread stalls. -/
def enqueueWaiter (address : Address) (thread : ThreadId) (mask : BitVec 32) (timeout : ℕ)
    (s : Server) : Server :=
  s.enqueue (.futex address) ⟨thread, mask, timeout⟩ .futex

/-- The rest of `enqueueWaiter`, and of `futexWait`: the result and the time at the end. -/
def waitResult (thread : ThreadId) (s : Server) : ℤ × ℕ :=
  (if s.threads.wakeupMsg thread then 0 else etimedout, s.threads.wakeupTime thread)

def dequeueWaiter (address : Address) (threadBy : ThreadId) (mask : BitVec 32) (time : ℕ)
    (s : Server) : Server × Option ThreadId :=
  s.wakeFirst (.futex address) (fun waiter => mask &&& waiter.mask ≠ 0)
    (fun _ => some threadBy) time true

def requeueWaiter (address requeue : Address) (s : Server) : Server × Option ThreadId :=
  match s.futexes address with
  | [] => (s, none)
  | waiter :: waiting =>
    let s := s.setWaiters waiting (.futex address)
    (s.setWaiters (s.futexes requeue ++ [waiter]) (.futex requeue), some waiter.thread)

def wakeTimedOut (time : ℕ) (s : Server) (address : Address) : Server :=
  (s.wakeFirst (.futex address) (fun waiter => waiter.timeout ≤ time) (fun _ => none) time false).1

/-! ## `SyscallServer` -/

/-- `handleSleepCall`, up to the point where the thread stalls. -/
def handleSleepCall (thread : ThreadId) (wakeTime : ℕ) (s : Server) : Server :=
  s.enqueue .sleeping ⟨thread, 0, wakeTime⟩ .sleep

/-- `m_futexes[address]`. -/
def findFutex (address : Address) (s : Server) : Server :=
  if address ∈ s.known then s else { s with known := s.known ++ [address] }

def applyRescheduleCost (cost : ℕ) (env : Env) (conditional : Bool) : ℕ :=
  if conditional = false then 0 else if env.instructionCount = 0 then 0 else cost

/-- `futexWait`: the result and the time at the end, unless the thread stalls. -/
def futexWait (address : Address) (thread : ThreadId) (val actVal mask : BitVec 32)
    (time timeout : ℕ) (s : Server) : Server × Option (ℤ × ℕ) :=
  let s := s.findFutex address
  if val ≠ actVal then (s, some (eagain, time))
  else (s.enqueueWaiter address thread mask timeout, none)

def wakeFutexOne (cost : ℕ) (env : Env) (address : Address) (threadBy : ThreadId)
    (mask : BitVec 32) (time : ℕ) (s : Server) : Server × Option ThreadId :=
  s.dequeueWaiter address threadBy mask (time + applyRescheduleCost cost env true)

def wakeLoop (wakeOne : Server → Server × Option ThreadId) : ℕ → Server → Server × ℕ
  | 0, s => (s, 0)
  | n + 1, s =>
    let one := wakeOne s
    if one.2 = none then (one.1, 0)
    else
      let rest := wakeLoop wakeOne n one.1
      (rest.1, rest.2 + 1)

def futexWake (cost : ℕ) (env : Env) (address : Address) (thread : ThreadId)
    (nrWake mask : BitVec 32) (time : ℕ) (s : Server) : Server × ℤ × ℕ :=
  let s := s.findFutex address
  let woken := wakeLoop (wakeFutexOne cost env address thread mask time) nrWake.toInt.toNat s
  (woken.1, woken.2, time + applyRescheduleCost cost env (woken.2 > 0))

/-- The new value at `uaddr2`, by the operation. -/
def futexNewval (op oparg oldval : BitVec 32) : Except Fault (BitVec 32) :=
  match op.toNat with
  | 0 => .ok oparg
  | 1 => .ok (oldval + oparg)
  | 2 => .ok (oldval ||| oparg)
  | 3 => .ok (oldval &&& ~~~oparg)
  | 4 => .ok (oldval ^^^ oparg)
  | _ => .error .unknownOp

def futexCompare (cmp oldval cmparg : BitVec 32) : Except Fault Bool :=
  match cmp.toNat with
  | 0 => .ok (oldval = cmparg)
  | 1 => .ok (oldval ≠ cmparg)
  | 2 => .ok (oldval.toInt < cmparg.toInt)
  | 5 => .ok (oldval.toInt ≥ cmparg.toInt)
  | 3 => .ok (oldval.toInt ≤ cmparg.toInt)
  | 4 => .ok (oldval.toInt > cmparg.toInt)
  | _ => .error .unknownCmp

/-- `futexDoOp`: the value that is written, and the outcome of the comparison. -/
def futexDoOp (encodedOp oldval : BitVec 32) : Except Fault (BitVec 32 × Bool) :=
  let op := encodedOp.sshiftRight 28 &&& 7
  let cmp := encodedOp.sshiftRight 24 &&& 15
  let oparg := (encodedOp <<< 8).sshiftRight 20
  let cmparg := (encodedOp <<< 20).sshiftRight 20
  -- a machine shifts by the lower five bits
  let oparg :=
    if encodedOp &&& ((8 : BitVec 32) <<< 28) ≠ 0 then (1 : BitVec 32) <<< (oparg &&& 31) else oparg
  (futexNewval op oparg oldval).bind fun newval =>
    (futexCompare cmp oldval cmparg).map fun ret => (newval, ret)

def futexWakeOp (cost : ℕ) (env : Env) (address address2 : Address) (thread : ThreadId)
    (nrWake nrWake2 op : BitVec 32) (time : ℕ) (s : Server) : Except Fault (Server × ℤ × ℕ) :=
  let s := (s.findFutex address).findFutex address2
  (futexDoOp op env.oldval).map fun done =>
    let woken := wakeLoop (wakeFutexOne cost env address thread matchAny time) nrWake.toInt.toNat s
    let woken2 :=
      if done.2 then
        wakeLoop (wakeFutexOne cost env address2 thread matchAny time) nrWake2.toInt.toNat woken.1
      else (woken.1, 0)
    let number := woken.2 + woken2.2
    (woken2.1, number, time + applyRescheduleCost cost env (number > 0))

def requeueLoop (address requeue : Address) : ℕ → Server → Except Fault Server
  | 0, _ => .error .requeueing
  | fuel + 1, s =>
    let moved := s.requeueWaiter address requeue
    if moved.2 = none then .ok moved.1 else requeueLoop address requeue fuel moved.1

/-- `futexCmpRequeue`. Either the loop ends after one round for each waiter, or never. -/
def futexCmpRequeue (address requeue : Address) (thread : ThreadId) (val val3 actVal : BitVec 32)
    (time : ℕ) (s : Server) : Except Fault (Server × ℤ × ℕ) :=
  let s := s.findFutex address
  if val3 ≠ actVal then .ok (s, eagain, time)
  else
    let woken := wakeLoop (dequeueWaiter address thread matchAny time) val.toInt.toNat s
    let s := woken.1.findFutex requeue
    (s.requeueLoop address requeue ((s.futexes address).length + 1)).map fun s =>
      (s, (woken.2 : ℤ), time)

/-- `futexPeriodic`, for the order in which the map of the futexes is walked. -/
def futexPeriodic (time : ℕ) (order : List Address) (s : Server) : Server :=
  order.foldl (wakeTimedOut time)
    (s.wakeFirst .sleeping (fun waiter => waiter.timeout ≤ time) (fun waiter => some waiter.thread)
      time false).1

def timeoutTime (command : Command) (time : ℕ) : Option ℕ → ℕ
  | none => maxTime
  | some timeout => if command = .waitBitset then timeout else (time + timeout) % (maxTime + 1)

/-- `handleFutexCall`: the result and the time at the end, unless the thread stalls. -/
def handleFutexCall (cost : ℕ) (thread : ThreadId) (args : Args) (env : Env) (time : ℕ)
    (s : Server) : Except Fault (Server × Option (ℤ × ℕ)) :=
  let address := env.va2pa thread args.uaddr
  let address2 := env.va2pa thread args.uaddr2
  match Command.ofOp args.op with
  | none => .error .unknownCommand
  | some command =>
    let mask := if command = .waitBitset then args.val3 else matchAny
    match command with
    | .wait | .waitBitset =>
      .ok (s.futexWait address thread args.val env.actVal mask time
        (timeoutTime command time env.timeout))
    | .wake | .wakeBitset =>
      let done := s.futexWake cost env address thread args.val mask time
      .ok (done.1, some done.2)
    | .wakeOp =>
      (s.futexWakeOp cost env address address2 thread args.val args.val2 args.val3 time).map
        fun done => (done.1, some done.2)
    | .cmpRequeue =>
      if args.uaddr = args.uaddr2 then .error .sameUaddr
      else
        (s.futexCmpRequeue address address2 thread args.val args.val3 env.actVal time).map
          fun done => (done.1, some done.2)

end Server

/-! ## Calls -/

structure Return where
  thread : ThreadId
  result : ℤ
  endTime : ℕ
  deriving DecidableEq, Repr

inductive Event where
  | futex (thread : ThreadId) (args : Args) (env : Env) (time : ℕ)
  | sleep (thread : ThreadId) (wakeTime : ℕ)
  /-- A thread that was resumed returns from its call. -/
  | finish (thread : ThreadId)
  | periodic (time : ℕ) (order : List Address)

structure State where
  server : Server
  /-- The threads in a call that has stalled. -/
  inside : ThreadId → Bool
  /-- The threads that joined a queue, in their order. -/
  entered : List ThreadId
  /-- The futex calls that have returned, in their order. -/
  returned : List Return

def State.start : State := ⟨.start, fun _ => false, [], []⟩

def State.enter (s : State) (thread : ThreadId) (server : Server) : State :=
  ⟨server, Function.update s.inside thread true, s.entered ++ [thread], s.returned⟩

def State.handle (cost : ℕ) (s : State) : Event → Except Fault State
  | .futex thread args env time =>
    (s.server.handleFutexCall cost thread args env time).map fun done =>
      match done.2 with
      | none => s.enter thread done.1
      | some (result, endTime) =>
        { s with server := done.1, returned := s.returned ++ [⟨thread, result, endTime⟩] }
  | .sleep thread wakeTime => .ok (s.enter thread (s.server.handleSleepCall thread wakeTime))
  | .finish thread =>
    let returned :=
      if s.server.threads.stalledReason thread = .sleep then s.returned
      else
        let done := s.server.waitResult thread
        s.returned ++ [⟨thread, done.1, done.2⟩]
    .ok { s with inside := Function.update s.inside thread false, returned := returned }
  | .periodic time order => .ok { s with server := s.server.futexPeriodic time order }

def step (cost : ℕ) (s : Except Fault State) (event : Event) : Except Fault State :=
  s.bind fun s => s.handle cost event

end Sniper.System.Futex
