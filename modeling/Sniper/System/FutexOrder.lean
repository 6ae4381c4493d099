import Sniper.Lib.Fallible
import Sniper.Lib.Selection
import Sniper.Lib.Places
import Sniper.Lib.Runs
import Sniper.System.SyscallServer

/-!
# The life of a wait

A thread that waits on a futex is in one queue, once, until it is resumed. A call that wakes up
threads tells them so; a periodic call tells those whose time has come that it has timed out.
All of these take the first waiter that meets a condition out of a queue, so they are settled
by one lemma, and the loops by putting its effect together with itself.
-/

namespace Sniper.System.Futex

open Fallible Places List Function Threads Command

def Server.queue (s : Server) (place : Place) : List ThreadId :=
  (s.waiters place).map Waiter.thread

section Updates

variable (s : Server) (waiting : List Waiter) (place : Place)

open Server

lemma waiters_setWaiters :
    (s.setWaiters waiting place).waiters = update s.waiters place waiting := by
  funext other
  cases place with
  | sleeping =>
    cases other with
    | sleeping => rfl
    | futex address => rfl
  | futex address =>
    cases other with
    | sleeping => rfl
    | futex other =>
      by_cases same : other = address
      · simp [waiters, setWaiters, same]
      · simp [waiters, setWaiters, same]

lemma queue_setWaiters : (s.setWaiters waiting place).queue =
    update s.queue place (waiting.map Waiter.thread) := by
  funext other
  rw [queue, waiters_setWaiters]
  by_cases same : other = place
  · rw [same, update_self, update_self]
  · rw [update_of_ne same, update_of_ne same]
    rfl

variable {s waiting place} in
lemma mem_setWaiters {there : Place} {waiter : Waiter}
    (mem : waiter ∈ (s.setWaiters waiting place).waiters there) :
    waiter ∈ s.waiters there ∨ waiter ∈ waiting := by
  rw [waiters_setWaiters] at mem
  by_cases same : there = place
  · rw [same, update_self] at mem
    exact .inr mem
  · rw [update_of_ne same] at mem
    exact .inl mem

@[simp] lemma threads_setWaiters : (s.setWaiters waiting place).threads = s.threads := by
  cases place <;> rfl

end Updates

/-! ## The order -/

def Place.reason : Place → StallType
  | .sleeping => .sleep
  | .futex _ => .futex

structure Orderly (s : Server) : Prop where
  exclusive : Exclusive s.queue
  stalled : ∀ thread, s.threads.Stalled thread ↔ Queued s.queue thread
  reason : ∀ place, ∀ thread ∈ s.queue place, s.threads.stalledReason thread = place.reason

lemma Orderly.start : Orderly .start where
  exclusive := .of_nil fun place => by cases place <;> rfl
  stalled thread := by
    constructor
    · rintro ⟨⟩
    · rintro ⟨_ | _, ⟨⟩⟩
  reason := by rintro (_ | _) _ ⟨⟩

structure Wakes (due : Waiter → Prop) (msg : Bool) (s s' : Server) (woken : List Resume) :
    Prop where
  log : s'.threads.resumed = s.threads.resumed ++ woken
  once : (woken.map Resume.thread).Nodup
  due : ∀ thread ∈ woken.map Resume.thread,
    ∃ place, ∃ waiter ∈ s.waiters place, waiter.thread = thread ∧ due waiter
  stalled : ∀ thread, s'.threads.Stalled thread ↔
    s.threads.Stalled thread ∧ thread ∉ woken.map Resume.thread
  reasons : s'.threads.stalledReason = s.threads.stalledReason
  message : ∀ thread, s'.threads.wakeupMsg thread =
    if thread ∈ woken.map Resume.thread then msg else s.threads.wakeupMsg thread
  waiters : ∀ place, ∀ waiter ∈ s'.waiters place, ∃ before, waiter ∈ s.waiters before

section Wakes

variable {due : Waiter → Prop} {msg : Bool} {s s' s'' : Server} {woken more : List Resume}

lemma mem_queue {place : Place} {waiter : Waiter} (mem : waiter ∈ s.waiters place) :
    Queued s.queue waiter.thread :=
  ⟨place, mem_map_of_mem mem⟩

lemma Wakes.none (threads : s'.threads = s.threads)
    (waiters : ∀ place, ∀ waiter ∈ s'.waiters place, ∃ before, waiter ∈ s.waiters before) :
    Wakes due msg s s' [] :=
  ⟨by rw [threads, append_nil], nodup_nil, by simp, by simp [threads], by rw [threads],
    by simp [threads], waiters⟩

lemma Wakes.refl (s : Server) : Wakes due msg s s [] := .none rfl fun place _ mem => ⟨place, mem⟩

lemma Wakes.trans (first : Wakes due msg s s' woken) (second : Wakes due msg s' s'' more)
    (orderly : Orderly s') : Wakes due msg s s'' (woken ++ more) where
  log := by rw [second.log, first.log, append_assoc]
  once := by
    rw [map_append]
    refine first.once.append second.once ?_
    intro thread here there
    obtain ⟨place, waiter, mem, rfl, -⟩ := second.due thread there
    exact ((first.stalled _).mp ((orderly.stalled _).mpr (mem_queue mem))).2 here
  due thread mem := by
    rw [map_append] at mem
    rcases mem_append.mp mem with mem | mem
    · exact first.due thread mem
    · obtain ⟨place, waiter, mem, same, is_due⟩ := second.due thread mem
      obtain ⟨before, mem⟩ := first.waiters place waiter mem
      exact ⟨before, waiter, mem, same, is_due⟩
  stalled thread := by
    rw [second.stalled, first.stalled, map_append, mem_append, not_or, and_assoc]
  reasons := second.reasons.trans first.reasons
  message thread := by
    rw [second.message, first.message, map_append]
    by_cases there : thread ∈ more.map Resume.thread
    · rw [if_pos there, if_pos (mem_append_right _ there)]
    · rw [if_neg there]
      refine if_congr ?_ rfl rfl
      rw [mem_append, or_iff_left there]
  waiters place waiter mem := by
    obtain ⟨between, mem⟩ := second.waiters place waiter mem
    exact first.waiters between waiter mem

def Keeps (due : Waiter → Prop) (msg : Bool) (s s' : Server) : Prop :=
  Orderly s → Orderly s' ∧ ∃ woken, Wakes due msg s s' woken

lemma Keeps.refl (s : Server) : Keeps due msg s s := fun orderly => ⟨orderly, [], .refl s⟩

lemma Keeps.trans (first : Keeps due msg s s') (second : Keeps due msg s' s'') :
    Keeps due msg s s'' := by
  intro orderly
  obtain ⟨between, woken, wakes⟩ := first orderly
  obtain ⟨after, more, wakes'⟩ := second between
  exact ⟨after, woken ++ more, wakes.trans wakes' between⟩

lemma Keeps.alike (waiters : s'.waiters = s.waiters) (threads : s'.threads = s.threads) :
    Keeps due msg s s' := by
  intro orderly
  have queues : s'.queue = s.queue := by
    funext place
    rw [Server.queue, waiters, Server.queue]
  refine ⟨⟨?_, ?_, ?_⟩, [], .none threads fun place waiter mem => ⟨place, waiters ▸ mem⟩⟩
  · rw [queues]
    exact orderly.exclusive
  · rw [queues, threads]
    exact orderly.stalled
  · rw [queues, threads]
    exact orderly.reason

end Wakes

/-! ## Waking up -/

section Waking

variable {due : Waiter → Prop} {msg : Bool}

lemma keeps_wakeFirst (s : Server) (place : Place) {test : Waiter → Bool}
    (tested : ∀ waiter, test waiter = true → due waiter) (threadBy : Waiter → Option ThreadId)
    (time : ℕ) : Keeps due msg s (s.wakeFirst place test threadBy time msg).1 := by
  rw [Server.wakeFirst]
  split
  · exact .refl s
  next waiter found =>
  intro orderly
  have mem : waiter ∈ s.waiters place := mem_of_find?_eq_some found
  have leaves : (s.queue place).Perm
      (waiter.thread :: ((s.waiters place).eraseP test).map Waiter.thread) :=
    (Picked.perm_eraseP found).map Waiter.thread
  have queues := queue_setWaiters s ((s.waiters place).eraseP test) place
  have resumed : ∀ other,
      (s.threads.resumeThread waiter.thread (threadBy waiter) time msg).Stalled other ↔
        s.threads.Stalled other ∧ other ≠ waiter.thread :=
    fun _ => stalled_resumeThread _ _ _
  dsimp only
  rw [threads_setWaiters]
  refine ⟨⟨?_, ?_, ?_⟩, [⟨waiter.thread, threadBy waiter, time, msg⟩], ?_⟩
  · change Exclusive (s.setWaiters _ place).queue
    rw [queues]
    exact orderly.exclusive.remove leaves
  · intro other
    change _ ↔ Queued (s.setWaiters _ place).queue other
    rw [resumed, orderly.stalled, queues, orderly.exclusive.queued_remove leaves]
  · intro there other mem
    change other ∈ (s.setWaiters _ place).queue there at mem
    rw [queues] at mem
    exact orderly.reason there other ((orderly.exclusive.mem_remove leaves).mp mem).1
  · refine ⟨rfl, nodup_singleton _, ?_, ?_, rfl, ?_, ?_⟩
    · intro thread same
      refine ⟨place, waiter, mem, (mem_singleton.mp same).symm, tested waiter ?_⟩
      exact find?_some found
    · intro thread
      rw [resumed]
      simp
    · intro thread
      by_cases same : thread = waiter.thread
      · simp [resumeThread, same]
      · simp [resumeThread, same]
    · intro there other mem
      rcases mem_setWaiters mem with before | mem
      · exact ⟨there, before⟩
      · exact ⟨place, mem_of_mem_eraseP mem⟩

section Loops

variable {R : Server → Server → Prop} (refl : ∀ s, R s s)
  (trans : ∀ s s' s'', R s s' → R s' s'' → R s s'')

include refl trans

lemma wakeLoop_relates {wakeOne : Server → Server × Option ThreadId}
    (one : ∀ s, R s (wakeOne s).1) (number : ℕ) (s : Server) :
    R s (Server.wakeLoop wakeOne number s).1 := by
  induction number generalizing s with
  | zero => exact refl s
  | succ number ih =>
    rw [Server.wakeLoop]
    split
    · exact one s
    · exact trans _ _ _ (one s) (ih (wakeOne s).1)

lemma futexPeriodic_relates {time : ℕ} (one : ∀ place threadBy s,
      R s (s.wakeFirst place (fun waiter => waiter.timeout ≤ time) threadBy time false).1)
    (order : List Address) (s : Server) : R s (s.futexPeriodic time order) := by
  have walk : ∀ s, R s (order.foldl (Server.wakeTimedOut time) s) := by
    induction order with
    | nil => exact refl
    | cons address order ih =>
      intro s
      exact trans _ _ _ (one (.futex address) _ s) (ih _)
  exact trans _ _ _ (one .sleeping _ s) (walk _)

end Loops

lemma keeps_wakeLoop {wakeOne : Server → Server × Option ThreadId}
    (one : ∀ s, Keeps due msg s (wakeOne s).1) (number : ℕ) (s : Server) :
    Keeps due msg s (Server.wakeLoop wakeOne number s).1 :=
  wakeLoop_relates .refl (fun _ _ _ => .trans) one number s

lemma keeps_dequeueWaiter (always : ∀ waiter, due waiter) (address : Address)
    (threadBy : ThreadId) (mask : BitVec 32) (time : ℕ) (s : Server) :
    Keeps due true s (s.dequeueWaiter address threadBy mask time).1 :=
  keeps_wakeFirst s (.futex address) (fun waiter _ => always waiter) _ time

lemma keeps_futexPeriodic (time : ℕ) (order : List Address) (s : Server) :
    Keeps (fun waiter => waiter.timeout ≤ time) false s (s.futexPeriodic time order) :=
  futexPeriodic_relates .refl (fun _ _ _ => .trans)
    (fun place threadBy s => keeps_wakeFirst s place (fun _ => of_decide_eq_true) threadBy time)
    order s

lemma keeps_findFutex (address : Address) (s : Server) : Keeps due msg s (s.findFutex address) := by
  rw [Server.findFutex]
  split
  · exact .refl s
  · exact .alike (by funext place; cases place <;> rfl) rfl

/-! ## Moving waiters -/

lemma keeps_requeueWaiter (address requeue : Address) (s : Server) :
    Keeps due msg s (s.requeueWaiter address requeue).1 := by
  rw [Server.requeueWaiter]
  split
  · exact .refl s
  next waiter waiting queue =>
  intro orderly
  have queued : s.waiters (.futex address) = waiter :: waiting := queue
  have leaves : (s.queue (.futex address)).Perm (waiter.thread :: waiting.map Waiter.thread) :=
    .of_eq (congrArg (map Waiter.thread) queue)
  have there : waiter.thread ∈ s.queue (.futex address) := leaves.mem_iff.mpr mem_cons_self
  have left := queue_setWaiters s waiting (.futex address)
  have outside : ¬ Queued (s.setWaiters waiting (.futex address)).queue waiter.thread := by
    rw [left, orderly.exclusive.queued_remove leaves]
    exact fun queued => queued.2 rfl
  have queues : ((s.setWaiters waiting (.futex address)).setWaiters
      ((s.setWaiters waiting (.futex address)).futexes requeue ++ [waiter])
      (.futex requeue)).queue =
      update (s.setWaiters waiting (.futex address)).queue (.futex requeue)
        ((s.setWaiters waiting (.futex address)).queue (.futex requeue) ++ [waiter.thread]) := by
    rw [queue_setWaiters, map_append]
    rfl
  refine ⟨⟨?_, ?_, ?_⟩, [], .none rfl ?_⟩
  · rw [queues]
    refine Exclusive.push ?_ _ outside
    rw [left]
    exact orderly.exclusive.remove leaves
  · intro thread
    change s.threads.Stalled thread ↔ _
    rw [queues, queued_push, left, orderly.exclusive.queued_remove leaves, orderly.stalled]
    by_cases same : thread = waiter.thread
    · simp only [same, ne_eq, not_true_eq_false, and_false, or_true, iff_true]
      exact ⟨_, there⟩
    · simp [same]
  · intro place thread mem
    rw [queues] at mem
    rcases mem_push.mp mem with before | ⟨rfl, rfl⟩
    · rw [left] at before
      exact orderly.reason place thread ((orderly.exclusive.mem_remove leaves).mp before).1
    · exact orderly.reason (.futex address) waiter.thread there
  · intro place other mem
    have before : ∀ there, ∀ moved ∈ (s.setWaiters waiting (.futex address)).waiters there,
        ∃ before, moved ∈ s.waiters before := by
      intro there moved mem
      rcases mem_setWaiters mem with before | mem
      · exact ⟨there, before⟩
      · exact ⟨.futex address, queued ▸ mem_cons_of_mem waiter mem⟩
    rcases mem_setWaiters mem with mem | mem
    · exact before place other mem
    rcases mem_append.mp mem with mem | mem
    · exact before (.futex requeue) other mem
    · rw [mem_singleton.mp mem]
      exact ⟨.futex address, queued ▸ mem_cons_self⟩

section Requeue

variable {address requeue : Address} {s : Server}

lemma requeueWaiter_eq_none_iff :
    (s.requeueWaiter address requeue).2 = none ↔ s.futexes address = [] := by
  rw [Server.requeueWaiter]
  cases s.futexes address with
  | nil => simp
  | cons waiter waiting => simp

lemma length_requeueWaiter (different : address ≠ requeue) :
    ((s.requeueWaiter address requeue).1.futexes address).length =
      (s.futexes address).length - 1 := by
  rw [Server.requeueWaiter]
  cases queue : s.futexes address with
  | nil => simp [queue]
  | cons waiter waiting => simp [Server.setWaiters, different]

lemma requeueLoop_returns (different : address ≠ requeue) {fuel : ℕ}
    (enough : (s.futexes address).length < fuel) :
    ∃ s', s.requeueLoop address requeue fuel = .ok s' ∧ Keeps due msg s s' := by
  induction fuel generalizing s with
  | zero => cases enough
  | succ fuel ih =>
    have moves : Keeps due msg s _ := keeps_requeueWaiter address requeue s
    rw [Server.requeueLoop]
    by_cases empty : s.futexes address = []
    · rw [if_pos (requeueWaiter_eq_none_iff.mpr empty)]
      exact ⟨_, rfl, moves⟩
    · rw [if_neg fun none => empty (requeueWaiter_eq_none_iff.mp none)]
      have positive := length_pos_iff.mpr empty
      have fewer : ((s.requeueWaiter address requeue).1.futexes address).length < fuel := by
        rw [length_requeueWaiter different]
        omega
      obtain ⟨s', ended, rest⟩ := ih fewer
      exact ⟨s', ended, moves.trans rest⟩

lemma requeueLoop_same (waiting : s.futexes address ≠ []) (fuel : ℕ) :
    s.requeueLoop address address fuel = .error .requeueing := by
  induction fuel generalizing s with
  | zero => rfl
  | succ fuel ih =>
    rw [Server.requeueLoop, if_neg fun none => waiting (requeueWaiter_eq_none_iff.mp none)]
    refine ih ?_
    rw [Server.requeueWaiter]
    cases queue : s.futexes address with
    | nil => exact absurd queue waiting
    | cons waiter rest => simp [Server.setWaiters]

end Requeue

end Waking

/-! ## Calls -/

section Calls

variable {s : Server} {due : Waiter → Prop} {cost : ℕ} {env : Env} {thread : ThreadId} {time : ℕ}

lemma Orderly.enqueue (orderly : Orderly s) (place : Place) {waiter : Waiter}
    (running : ¬ s.threads.Stalled waiter.thread) :
    Orderly (s.enqueue place waiter place.reason) := by
  have queues : (s.setWaiters (s.waiters place ++ [waiter]) place).queue =
      update s.queue place (s.queue place ++ [waiter.thread]) := by
    rw [queue_setWaiters, map_append]
    rfl
  rw [Server.enqueue, threads_setWaiters]
  refine ⟨?_, ?_, ?_⟩
  · change Exclusive (s.setWaiters _ place).queue
    rw [queues]
    exact orderly.exclusive.push place fun queued => running ((orderly.stalled _).mpr queued)
  · intro thread
    change (s.threads.stallThread waiter.thread place.reason).Stalled thread ↔
      Queued (s.setWaiters _ place).queue thread
    rw [stalled_stallThread, queues, queued_push, orderly.stalled]
  · intro there thread mem
    change thread ∈ (s.setWaiters _ place).queue there at mem
    change update s.threads.stalledReason waiter.thread place.reason thread = _
    rw [queues] at mem
    rcases mem_push.mp mem with before | ⟨rfl, rfl⟩
    · have different : thread ≠ waiter.thread := by
        rintro rfl
        exact running ((orderly.stalled _).mpr ⟨there, before⟩)
      rw [update_of_ne different]
      exact orderly.reason there thread before
    · exact update_self _ _ _

section

variable (always : ∀ waiter, due waiter)

include always

lemma keeps_wakeFutexOne (cost : ℕ) (env : Env)
    (address : Address) (threadBy : ThreadId) (mask : BitVec 32) (time : ℕ) (s : Server) :
    Keeps due true s (s.wakeFutexOne cost env address threadBy mask time).1 :=
  keeps_dequeueWaiter always address threadBy mask _ s

lemma keeps_futexWake (address : Address) (nrWake mask : BitVec 32) :
    Keeps due true s (s.futexWake cost env address thread nrWake mask time).1 :=
  (keeps_findFutex address s).trans
    (keeps_wakeLoop (keeps_wakeFutexOne always cost env address thread mask time) _ _)

lemma keeps_futexWakeOp {address address2 : Address}
    {nrWake nrWake2 op : BitVec 32} {done : Server × ℤ × ℕ}
    (ran : s.futexWakeOp cost env address address2 thread nrWake nrWake2 op time = .ok done) :
    Keeps due true s done.1 := by
  obtain ⟨outcome, -, rfl⟩ := map_eq_ok.mp ran
  have one := fun address => keeps_wakeFutexOne always cost env address thread matchAny time
  have first := ((keeps_findFutex address s).trans (keeps_findFutex address2 _)).trans
    (keeps_wakeLoop (one address) nrWake.toInt.toNat _)
  split
  · exact first.trans (keeps_wakeLoop (one address2) _ _)
  · exact first

lemma keeps_futexCmpRequeue {address requeue : Address}
    (different : address ≠ requeue) (val val3 actVal : BitVec 32) :
    ∃ done, s.futexCmpRequeue address requeue thread val val3 actVal time = .ok done ∧
      Keeps due true s done.1 := by
  have found : Keeps due true s (s.findFutex address) := keeps_findFutex address s
  rw [Server.futexCmpRequeue]
  dsimp only
  split
  · exact ⟨_, rfl, found⟩
  · have woken := (found.trans (keeps_wakeLoop
      (keeps_dequeueWaiter always address thread matchAny time) val.toInt.toNat _)).trans
        (keeps_findFutex requeue _)
    obtain ⟨s', ended, moved⟩ := requeueLoop_returns different (Nat.lt_succ_self _)
    rw [ended]
    exact ⟨_, rfl, woken.trans moved⟩

end

inductive Handled (s : Server) (thread : ThreadId) (command : Command) :
    Server × Option (ℤ × ℕ) → Prop where
  | returns {s' : Server} {result : ℤ × ℕ}
      (keeps : Keeps (fun _ => ¬ command.IsWait) true s s') :
      Handled s thread command (s', some result)
  | waits {found : Server} {address : Address} {mask : BitVec 32} {timeout : ℕ}
      (wait : command.IsWait) (keeps : Keeps (fun _ => False) true s found) :
      Handled s thread command (found.enqueueWaiter address thread mask timeout, none)

lemma handled_futexWait {command : Command} (wait : command.IsWait) (address : Address)
    (val actVal mask : BitVec 32) (timeout : ℕ) :
    Handled s thread command (s.futexWait address thread val actVal mask time timeout) := by
  rw [Server.futexWait]
  split
  · exact .returns (keeps_findFutex address s)
  · exact .waits wait (keeps_findFutex address s)

lemma handleFutexCall_cases {args : Args} {done : Server × Option (ℤ × ℕ)}
    (different : ofOp args.op = some .cmpRequeue →
      env.va2pa thread args.uaddr ≠ env.va2pa thread args.uaddr2)
    (ran : s.handleFutexCall cost thread args env time = .ok done) :
    ∃ command, ofOp args.op = some command ∧ Handled s thread command done := by
  rw [Server.handleFutexCall] at ran
  cases decoded : ofOp args.op with
  | none =>
    rw [decoded] at ran
    cases ran
  | some command =>
    rw [decoded] at ran
    refine ⟨command, rfl, ?_⟩
    cases command with
    | wait | waitBitset =>
      cases ran
      refine handled_futexWait ?_ _ _ _ _ _
      exact trivial
    | wake | wakeBitset =>
      cases ran
      exact .returns (keeps_futexWake (fun _ => id) _ _ _)
    | wakeOp =>
      obtain ⟨done, woken, rfl⟩ := map_eq_ok.mp ran
      exact .returns (keeps_futexWakeOp (fun _ => id) woken)
    | cmpRequeue =>
      dsimp only at ran
      split at ran
      · cases ran
      · obtain ⟨result, moved, keeps⟩ := keeps_futexCmpRequeue (fun _ => id) (different decoded)
          args.val args.val3 env.actVal
        rw [moved] at ran
        cases ran
        exact .returns keeps

end Calls

/-! ## Phases -/

inductive Phase where
  /-- Outside, or in a call that has not stalled. -/
  | free
  | sleeping
  /-- Waiting on a futex. -/
  | blocked
  /-- Resumed, and told that it was woken up. -/
  | woken
  /-- Resumed, and told that its time is over. -/
  | timedOut
  deriving DecidableEq, Repr

def State.phase (s : State) (thread : ThreadId) : Phase :=
  if s.inside thread = false then .free
  else if s.server.threads.stalledReason thread = .sleep then .sleeping
  else if s.server.threads.Stalled thread then .blocked
  else if s.server.threads.wakeupMsg thread then .woken
  else .timedOut

def Event.caller : Event → Option ThreadId
  | .futex thread _ _ _ => some thread
  | .sleep thread _ => some thread
  | .finish thread => some thread
  | .periodic _ _ => none

inductive Moves (s s' : State) : Event → ThreadId → Phase → Phase → Prop where
  | stays {event : Event} {thread : ThreadId} {phase : Phase}
      (foreign : event.caller ≠ some thread) : Moves s s' event thread phase phase
  | returns {thread : ThreadId} {args : Args} {env : Env} {time : ℕ} :
      Moves s s' (.futex thread args env time) thread .free .free
  | waits {thread : ThreadId} {args : Args} {env : Env} {time : ℕ} {command : Command}
      (decoded : Command.ofOp args.op = some command) (wait : command.IsWait) :
      Moves s s' (.futex thread args env time) thread .free .blocked
  | wakes {caller thread : ThreadId} {args : Args} {env : Env} {time : ℕ} {command : Command}
      (decoded : Command.ofOp args.op = some command) (wake : ¬ command.IsWait) :
      Moves s s' (.futex caller args env time) thread .blocked .woken
  | timesOut {time : ℕ} {order : List Address} {address : Address} {waiter : Waiter}
      (waiting : waiter ∈ s.server.futexes address) (due : waiter.timeout ≤ time) :
      Moves s s' (.periodic time order) waiter.thread .blocked .timedOut
  | reportsWoken {thread : ThreadId} {endTime : ℕ}
      (reported : s'.returned = s.returned ++ [⟨thread, 0, endTime⟩]) :
      Moves s s' (.finish thread) thread .woken .free
  | reportsTimeout {thread : ThreadId} {endTime : ℕ}
      (reported : s'.returned = s.returned ++ [⟨thread, etimedout, endTime⟩]) :
      Moves s s' (.finish thread) thread .timedOut .free
  | sleeps {thread : ThreadId} {wakeTime : ℕ} :
      Moves s s' (.sleep thread wakeTime) thread .free .sleeping
  | awakes {thread : ThreadId} : Moves s s' (.finish thread) thread .sleeping .free

/-- Calls come from threads that are in no other call, a thread that was resumed returns, and
waiters are moved between different futexes. -/
def Permitted (s : State) : Event → Prop
  | .futex thread args env _ => s.inside thread = false ∧
    (Command.ofOp args.op = some .cmpRequeue →
      env.va2pa thread args.uaddr ≠ env.va2pa thread args.uaddr2)
  | .sleep thread _ => s.inside thread = false
  | .finish thread => s.inside thread = true ∧ ¬ s.server.threads.Stalled thread
  | .periodic _ order => order.Perm s.server.known

instance (s : State) : (event : Event) → Decidable (Permitted s event)
  | .futex thread args env _ => inferInstanceAs (Decidable (s.inside thread = false ∧
    (Command.ofOp args.op = some .cmpRequeue →
      env.va2pa thread args.uaddr ≠ env.va2pa thread args.uaddr2)))
  | .sleep thread _ => inferInstanceAs (Decidable (s.inside thread = false))
  | .finish thread =>
    inferInstanceAs (Decidable (s.inside thread = true ∧ ¬ s.server.threads.Stalled thread))
  | .periodic _ order => inferInstanceAs (Decidable (order.Perm s.server.known))

structure Sound (s : State) : Prop where
  orderly : Orderly s.server
  inside : ∀ thread, s.server.threads.Stalled thread → s.inside thread = true
  entered : ∀ thread, s.entered.count thread =
    (s.server.threads.resumed.map Resume.thread).count thread +
      if s.server.threads.Stalled thread then 1 else 0

section Phases

variable {s : State} {thread : ThreadId}

open State

lemma phase_eq_blocked_iff : s.phase thread = .blocked ↔ s.inside thread = true ∧
    s.server.threads.stalledReason thread ≠ .sleep ∧ s.server.threads.Stalled thread := by
  rw [phase]
  split
  · next outside => simp [outside]
  next inside =>
  split
  · next sleeps => simp [sleeps]
  next waits =>
  split
  · next stalled => simp [stalled, waits, inside]
  next running =>
  split <;> simp [running]

lemma phase_congr {s' : State} (inside : s'.inside thread = s.inside thread)
    (reason : s'.server.threads.stalledReason thread = s.server.threads.stalledReason thread)
    (stalled : s'.server.threads.Stalled thread ↔ s.server.threads.Stalled thread)
    (message : s'.server.threads.wakeupMsg thread = s.server.threads.wakeupMsg thread) :
    s'.phase thread = s.phase thread := by
  simp only [phase, inside, reason, stalled, message]

lemma Sound.blocked_iff (sound : Sound s) :
    s.phase thread = .blocked ↔ ∃ address, thread ∈ s.server.queue (.futex address) := by
  rw [phase_eq_blocked_iff]
  constructor
  · rintro ⟨-, awake, stalled⟩
    obtain ⟨place, mem⟩ := (sound.orderly.stalled thread).mp stalled
    cases place with
    | sleeping => exact absurd (sound.orderly.reason .sleeping thread mem) awake
    | futex address => exact ⟨address, mem⟩
  · rintro ⟨address, mem⟩
    have stalled := (sound.orderly.stalled thread).mpr ⟨_, mem⟩
    refine ⟨sound.inside thread stalled, ?_, stalled⟩
    simp [sound.orderly.reason (.futex address) thread mem, Place.reason]

/-- Whatever wakes waiters changes the phases of just their threads. -/
lemma Sound.wakes (sound : Sound s) {due : Waiter → Prop} {msg : Bool} {s' : State}
    (keeps : Keeps due msg s.server s'.server) (inside : s'.inside = s.inside)
    (entered : s'.entered = s.entered) :
    Sound s' ∧ ∀ thread, s'.phase thread = s.phase thread ∨
      s.phase thread = .blocked ∧ s'.phase thread = (if msg then .woken else .timedOut) ∧
        ∃ address, ∃ waiter ∈ s.server.futexes address, waiter.thread = thread ∧ due waiter := by
  obtain ⟨orderly, woken, wakes⟩ := keeps sound.orderly
  have stalled : ∀ thread ∈ woken.map Resume.thread, s.server.threads.Stalled thread := by
    intro thread mem
    obtain ⟨place, waiter, there, rfl, -⟩ := wakes.due thread mem
    exact (sound.orderly.stalled _).mpr (mem_queue there)
  refine ⟨⟨orderly, ?_, ?_⟩, ?_⟩
  · intro thread still
    rw [inside]
    exact sound.inside thread ((wakes.stalled thread).mp still).1
  · intro thread
    rw [entered, sound.entered, wakes.log, map_append, count_append, Nat.add_assoc]
    congr 1
    by_cases mem : thread ∈ woken.map Resume.thread
    · have before := stalled thread mem
      have after : ¬ s'.server.threads.Stalled thread :=
        fun still => ((wakes.stalled thread).mp still).2 mem
      rw [count_eq_one_of_mem wakes.once mem, if_pos before, if_neg after]
    · rw [count_eq_zero_of_not_mem mem, Nat.zero_add]
      refine if_congr ?_ rfl rfl
      rw [wakes.stalled, and_iff_left mem]
  · intro thread
    have within := congrFun inside thread
    have reason := congrFun wakes.reasons thread
    by_cases mem : thread ∈ woken.map Resume.thread
    · obtain ⟨place, waiter, there, rfl, is_due⟩ := wakes.due thread mem
      have before := stalled _ mem
      have entry := sound.inside _ before
      have after : ¬ s'.server.threads.Stalled waiter.thread :=
        fun still => ((wakes.stalled _).mp still).2 mem
      have message := wakes.message waiter.thread
      rw [if_pos mem] at message
      have because := sound.orderly.reason place _ (mem_map_of_mem there)
      cases place with
      | sleeping =>
        left
        simp [phase, within, entry, reason, because, Place.reason]
      | futex address =>
        refine .inr ⟨?_, ?_, address, waiter, there, rfl, is_due⟩
        · exact sound.blocked_iff.mpr ⟨address, mem_map_of_mem there⟩
        · simp [phase, within, entry, reason, because, Place.reason, after, message]
    · left
      have message := wakes.message thread
      rw [if_neg mem] at message
      exact phase_congr within reason ((wakes.stalled thread).trans (and_iff_left mem)) message

lemma threads_enqueue (server : Server) (place : Place) (waiter : Waiter) (reason : StallType) :
    (server.enqueue place waiter reason).threads =
      server.threads.stallThread waiter.thread reason := by
  rw [Server.enqueue, threads_setWaiters]

def Place.phase : Place → Phase
  | .sleeping => .sleeping
  | .futex _ => .blocked

lemma Sound.enters (sound : Sound s) (outside : s.inside thread = false) (place : Place)
    (mask : BitVec 32) (timeout : ℕ) {s' : State}
    (after : s.enter thread (s.server.enqueue place ⟨thread, mask, timeout⟩ place.reason) = s') :
    Sound s' ∧ s'.phase thread = place.phase ∧
      ∀ other, other ≠ thread → s'.phase other = s.phase other := by
  subst after
  have running : ¬ s.server.threads.Stalled thread := by
    intro stalled
    rw [sound.inside thread stalled] at outside
    cases outside
  have threads := threads_enqueue s.server place ⟨thread, mask, timeout⟩ place.reason
  refine ⟨⟨sound.orderly.enqueue place running, ?_, ?_⟩, ?_, ?_⟩
  · intro other stalled
    change update s.inside thread true other = true
    by_cases same : other = thread
    · rw [same, update_self]
    · change Threads.Stalled _ other at stalled
      rw [enter, threads, stalled_stallThread, or_iff_left same] at stalled
      rw [update_of_ne same]
      exact sound.inside other stalled
  · intro other
    change (s.entered ++ [thread]).count other = _
    rw [enter, threads, count_append, sound.entered]
    change _ = (s.server.threads.resumed.map Resume.thread).count other + _
    by_cases same : other = thread
    · rw [same, if_neg running, if_pos (by rw [stalled_stallThread]; exact .inr rfl)]
      simp
    · simp [stalled_stallThread, same, Ne.symm same]
  · have stalled : (s.server.threads.stallThread thread place.reason).Stalled thread :=
      (stalled_stallThread _).mpr (.inr rfl)
    rw [phase, enter, threads]
    cases place with
    | sleeping => simp [stallThread, Place.reason, Place.phase]
    | futex address =>
      rw [if_pos stalled]
      simp [stallThread, Place.reason, Place.phase]
  · intro other different
    refine phase_congr ?_ ?_ ?_ ?_
    · exact update_of_ne different _ _
    · rw [enter, threads]
      exact update_of_ne different _ _
    · rw [enter, threads, stalled_stallThread, or_iff_left different]
    · rw [enter, threads]
      exact update_of_ne different _ _

end Phases

/-! ## Steps -/

section Steps

variable {s s' : State} {cost : ℕ} {thread : ThreadId}

lemma phase_of_outside (outside : s.inside thread = false) :
    s.phase thread = .free := if_pos outside

lemma Sound.futex (sound : Sound s) {args : Args} {env : Env} {time : ℕ}
    (permitted : Permitted s (.futex thread args env time))
    (ran : s.handle cost (.futex thread args env time) = .ok s') :
    Sound s' ∧ ∀ other, Moves s s' (.futex thread args env time) other (s.phase other)
      (s'.phase other) := by
  obtain ⟨outside, different⟩ := permitted
  obtain ⟨done, called, result⟩ := map_eq_ok.mp ran
  obtain ⟨command, decoded, handled⟩ := handleFutexCall_cases different called
  have free := phase_of_outside outside
  cases handled with
  | @returns server value keeps =>
    have after : s'.server = server ∧ s'.inside = s.inside ∧ s'.entered = s.entered := by
      rw [← result]
      exact ⟨rfl, rfl, rfl⟩
    obtain ⟨rfl, inside, entered⟩ := after
    obtain ⟨kept, phases⟩ := sound.wakes keeps inside entered
    refine ⟨kept, fun other => ?_⟩
    rcases phases other with same | ⟨blocked, woken, -, -, -, -, wake⟩
    · rw [same]
      by_cases caller : other = thread
      · rw [caller, free]
        exact .returns
      · exact .stays fun own => caller (Option.some.inj own).symm
    · rw [blocked, woken]
      exact .wakes decoded wake
  | @waits found address mask timeout wait keeps =>
    let between : State := { s with server := found }
    have keeps : Keeps (fun _ => False) true s.server between.server := keeps
    obtain ⟨kept, phases⟩ := sound.wakes keeps rfl rfl
    obtain ⟨entered, blocked, others⟩ := kept.enters outside (.futex address) mask timeout result
    refine ⟨entered, fun other => ?_⟩
    by_cases caller : other = thread
    · rw [caller, free, blocked]
      exact .waits decoded wait
    · rcases phases other with same | ⟨-, -, -, -, -, -, never⟩
      · rw [others other caller, same]
        exact .stays fun own => caller (Option.some.inj own).symm
      · exact never.elim

lemma Sound.sleep (sound : Sound s) {wakeTime : ℕ}
    (outside : s.inside thread = false) (ran : s.handle cost (.sleep thread wakeTime) = .ok s') :
    Sound s' ∧ ∀ other, Moves s s' (.sleep thread wakeTime) other (s.phase other)
      (s'.phase other) := by
  obtain ⟨kept, sleeping, others⟩ := sound.enters outside .sleeping 0 wakeTime (Except.ok.inj ran)
  refine ⟨kept, fun other => ?_⟩
  by_cases same : other = thread
  · rw [same, phase_of_outside outside, sleeping]
    exact .sleeps
  · rw [others other same]
    exact .stays fun caller => same (Option.some.inj caller).symm

lemma Sound.finish (sound : Sound s) (permitted : Permitted s (.finish thread))
    (ran : s.handle cost (.finish thread) = .ok s') :
    Sound s' ∧ ∀ other, Moves s s' (.finish thread) other (s.phase other) (s'.phase other) := by
  obtain ⟨inside, running⟩ := permitted
  have after : s'.server = s.server ∧ s'.inside = update s.inside thread false ∧
      s'.entered = s.entered := by
    rw [← Except.ok.inj ran]
    exact ⟨rfl, rfl, rfl⟩
  obtain ⟨server, outside, entered⟩ := after
  refine ⟨⟨?_, ?_, ?_⟩, fun other => ?_⟩
  · rw [server]
    exact sound.orderly
  · intro other stalled
    rw [server] at stalled
    rw [outside, update_of_ne]
    · exact sound.inside other stalled
    · rintro rfl
      exact running stalled
  · rw [server, entered]
    exact sound.entered
  by_cases same : other = thread
  · subst same
    have free : s'.phase other = .free := phase_of_outside (by rw [outside, update_self])
    rw [free, State.phase, if_neg (by simp [inside]), if_neg running]
    by_cases sleeps : s.server.threads.stalledReason other = .sleep
    · rw [if_pos sleeps]
      exact .awakes
    · have reported : s'.returned = s.returned ++ [⟨other, (s.server.waitResult other).1,
          (s.server.waitResult other).2⟩] := by
        rw [← Except.ok.inj ran]
        exact if_neg sleeps
      rw [if_neg sleeps]
      by_cases woken : s.server.threads.wakeupMsg other = true
      · rw [Server.waitResult, if_pos woken] at reported
        rw [if_pos woken]
        exact .reportsWoken reported
      · rw [Server.waitResult, if_neg woken] at reported
        rw [if_neg woken]
        exact .reportsTimeout reported
  · have stays : s'.phase other = s.phase other := by
      refine phase_congr ?_ ?_ ?_ ?_
      · rw [outside, update_of_ne same]
      · rw [server]
      · rw [server]
      · rw [server]
    rw [stays]
    exact .stays fun caller => same (Option.some.inj caller).symm

lemma Sound.periodic (sound : Sound s) {time : ℕ} {order : List Address}
    (ran : s.handle cost (.periodic time order) = .ok s') :
    Sound s' ∧ ∀ thread, Moves s s' (.periodic time order) thread (s.phase thread)
      (s'.phase thread) := by
  have after : s'.server = s.server.futexPeriodic time order ∧ s'.inside = s.inside ∧
      s'.entered = s.entered := by
    rw [← Except.ok.inj ran]
    exact ⟨rfl, rfl, rfl⟩
  obtain ⟨server, inside, entered⟩ := after
  have keeps := keeps_futexPeriodic time order s.server
  rw [← server] at keeps
  obtain ⟨kept, phases⟩ := sound.wakes keeps inside entered
  refine ⟨kept, fun thread => ?_⟩
  rcases phases thread with same | ⟨before, after, address, waiter, mem, rfl, due⟩
  · rw [same]
    exact .stays (by simp [Event.caller])
  · rw [before, after]
    exact .timesOut mem due

lemma Sound.handle (sound : Sound s) {event : Event} (permitted : Permitted s event)
    (ran : s.handle cost event = .ok s') :
    Sound s' ∧ ∀ thread, Moves s s' event thread (s.phase thread) (s'.phase thread) := by
  cases event with
  | futex thread args env time => exact sound.futex permitted ran
  | sleep thread wakeTime => exact sound.sleep permitted ran
  | finish thread => exact sound.finish permitted ran
  | periodic time order => exact sound.periodic ran

def Fault.Encoding (fault : Fault) : Prop :=
  fault = .unknownCommand ∨ fault = .unknownOp ∨ fault = .unknownCmp

lemma futexDoOp_fault {encodedOp oldval : BitVec 32} {fault : Fault}
    (failed : Server.futexDoOp encodedOp oldval = .error fault) : fault.Encoding := by
  rcases bind_eq_error.mp failed with unknown | ⟨newval, -, unknown⟩
  · rw [Server.futexNewval] at unknown
    split at unknown <;> cases unknown
    exact .inr (.inl rfl)
  · have unknown := map_eq_error.mp unknown
    rw [Server.futexCompare] at unknown
    split at unknown <;> cases unknown
    exact .inr (.inr rfl)

lemma handle_fault {event : Event} {fault : Fault} (permitted : Permitted s event)
    (failed : s.handle cost event = .error fault) : fault.Encoding := by
  cases event with
  | futex thread args env time =>
    have failed := map_eq_error.mp failed
    rw [Server.handleFutexCall] at failed
    cases decoded : ofOp args.op with
    | none =>
      rw [decoded] at failed
      cases failed
      exact .inl rfl
    | some command =>
      rw [decoded] at failed
      cases command with
      | wait | waitBitset | wake | wakeBitset => cases failed
      | wakeOp => exact futexDoOp_fault (map_eq_error.mp (map_eq_error.mp failed))
      | cmpRequeue =>
        have different := permitted.2 decoded
        have apart : args.uaddr ≠ args.uaddr2 := fun same => different (congrArg _ same)
        obtain ⟨done, moved, -⟩ := keeps_futexCmpRequeue (fun _ => trivial) different args.val
          args.val3 env.actVal
        rw [if_neg apart, moved] at failed
        cases failed
  | sleep thread wakeTime => cases failed
  | finish thread => cases failed
  | periodic time order => cases failed

end Steps

/-! ## Runs -/

/-- A thread is blocked while it is in one queue, once; it is resumed once for each time that
it has joined a queue, and it is told what has happened to it. -/
structure Correct (cost : ℕ) (s : State) : Prop where
  place : ∀ thread, s.phase thread = .blocked ↔
    ∃! address, thread ∈ (s.server.futexes address).map Waiter.thread
  once : ∀ address, ((s.server.futexes address).map Waiter.thread).Nodup
  resumed : ∀ thread, s.entered.count thread =
    (s.server.threads.resumed.map Resume.thread).count thread +
      if s.server.threads.Stalled thread then 1 else 0
  moves : ∀ event s', Permitted s event → s.handle cost event = .ok s' →
    ∀ thread, Moves s s' event thread (s.phase thread) (s'.phase thread)

lemma Sound.correct {s : State} (sound : Sound s) (cost : ℕ) : Correct cost s where
  place thread := by
    rw [sound.blocked_iff]
    constructor
    · rintro ⟨address, mem⟩
      refine ⟨address, mem, fun other there => ?_⟩
      exact Place.futex.inj (sound.orderly.exclusive.unique (.futex other) (.futex address) thread
        there mem)
    · rintro ⟨address, mem, -⟩
      exact ⟨address, mem⟩
  once := fun address => sound.orderly.exclusive.nodup (.futex address)
  resumed := sound.entered
  moves := fun event s' permitted ran => (sound.handle permitted ran).2

lemma Sound.start : Sound .start := ⟨.start, by rintro thread ⟨⟩, fun _ => rfl⟩

/-- Every run is correct throughout. It stops only at a call that encodes no operation. -/
theorem futex_correct (cost : ℕ) (events : List Event) (permitted : Runs.Guarded (step cost)
      (fun state event => ∀ s, state = .ok s → Permitted s event) (.ok .start) events) :
    Runs.Throughout (step cost) (fun state => (∀ s, state = .ok s → Correct cost s) ∧
        ∀ fault, state = .error fault → fault.Encoding) (.ok .start) events := by
  refine Runs.throughout_guarded (I := fun state => (∀ s, state = .ok s → Sound s) ∧
      ∀ fault, state = .error fault → fault.Encoding) ?_ ?_ ?_ permitted
  · rintro state event ⟨sound, faults⟩ permitted
    cases state with
    | error fault => exact ⟨by rintro s ⟨⟩, faults⟩
    | ok s =>
      refine ⟨fun s' ran => ((sound s rfl).handle (permitted s rfl) ran).1, fun fault failed => ?_⟩
      exact handle_fault (permitted s rfl) failed
  · rintro state ⟨sound, faults⟩
    exact ⟨fun s same => (sound s same).correct cost, faults⟩
  · refine ⟨?_, by rintro fault ⟨⟩⟩
    rintro s ⟨⟩
    exact .start

def twoWaiters : List Event :=
  let env : Env := ⟨fun _ uaddr => uaddr, 1000, 5, 0, some 100⟩
  [.futex 1 ⟨16, 0, 5, 0, 0, 0⟩ env 10, .futex 2 ⟨16, 9, 5, 0, 0, 1⟩ env 20, .sleep 4 200,
    .futex 3 ⟨16, 4, 1, 0, 32, 5⟩ env 30, .finish 1, .periodic 150 [32, 16], .finish 2,
    .futex 3 ⟨16, 5, 1, 1, 32, 0⟩ env 160, .periodic 250 [16, 32], .finish 4]

theorem twoWaiters_correct :
    Runs.Throughout (step 7) (fun state => (∀ s, state = .ok s → Correct 7 s) ∧
        ∀ fault, state = .error fault → fault.Encoding) (.ok .start) twoWaiters := by
  refine futex_correct 7 twoWaiters ?_
  refine ⟨?_, ?_, ?_, ?_, ?_, ?_, ?_, ?_, ?_, ?_, trivial⟩
  all_goals
    rintro s ⟨⟩
    decide

end Sniper.System.Futex
