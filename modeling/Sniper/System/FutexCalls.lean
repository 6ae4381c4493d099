import Mathlib.Algebra.Order.Ring.Nat
import Sniper.System.FutexOrder

/-!
# What futex calls do to the queues

The loops that wake up threads pick the first waiters that meet a test, and the loop that moves
waiters empties one queue into another. What `FUTEX_WAKE_BITSET` and `FUTEX_CMP_REQUEUE` are for can
be compared with this, and what happens to a thread that waits with a timeout.
-/

namespace Sniper.System.Futex

open Fallible Places Picked List Function

/-! ## Waking up -/

structure Picks (place : Place) (woken rest : List Waiter) (resume : Waiter → Resume)
    (s s' : Server) : Prop where
  waiters : s'.waiters = update s.waiters place rest
  resumed : s'.threads.resumed = s.threads.resumed ++ woken.map resume

section Picks

variable {place : Place} {due : Waiter → Bool} {s : Server}

lemma Picks.threads {woken rest : List Waiter} {resume : Waiter → Resume} {s' : Server}
    (picks : Picks place woken rest resume s s')
    (same : ∀ waiter, (resume waiter).thread = waiter.thread) :
    ∃ resumes, s'.threads.resumed = s.threads.resumed ++ resumes ∧
      resumes.map Resume.thread = woken.map Waiter.thread := by
  refine ⟨woken.map resume, picks.resumed, ?_⟩
  rw [map_map]
  exact map_congr_left fun waiter _ => same waiter

lemma wakeFirst_some {waiter : Waiter} (found : (s.waiters place).find? due = some waiter)
    (threadBy : Waiter → Option ThreadId) (time : ℕ) (msg : Bool) :
    (s.wakeFirst place due threadBy time msg).2 = some waiter.thread ∧
      Picks place [waiter] ((s.waiters place).eraseP due)
        (fun waiter => ⟨waiter.thread, threadBy waiter, time, msg⟩) s
        (s.wakeFirst place due threadBy time msg).1 := by
  rw [Server.wakeFirst, found]
  dsimp only
  refine ⟨rfl, ?_, ?_⟩
  · change (s.setWaiters _ place).waiters = _
    exact waiters_setWaiters s _ place
  · rw [threads_setWaiters]
    rfl

lemma wakeFirst_none (none : (s.waiters place).find? due = none)
    (threadBy : Waiter → Option ThreadId) (time : ℕ) (msg : Bool) :
    s.wakeFirst place due threadBy time msg = (s, Option.none) := by
  rw [Server.wakeFirst, none]

lemma wakeLoop_picks (place : Place) (due : Waiter → Bool) (threadBy : Waiter → Option ThreadId)
    (time : ℕ) (msg : Bool) (number : ℕ) (s : Server) :
    Picks place (picked due number (s.waiters place)) (left due number (s.waiters place))
      (fun waiter => ⟨waiter.thread, threadBy waiter, time, msg⟩) s
      (Server.wakeLoop (fun s => s.wakeFirst place due threadBy time msg) number s).1 := by
  induction number generalizing s with
  | zero =>
    refine ⟨?_, ?_⟩
    · exact (update_eq_self place s.waiters).symm
    · exact (append_nil _).symm
  | succ number ih =>
    rw [Server.wakeLoop]
    cases found : (s.waiters place).find? due with
    | none =>
      rw [wakeFirst_none found, picked_eq_nil found, left_eq_self found]
      exact ⟨(update_eq_self place s.waiters).symm, (append_nil _).symm⟩
    | some waiter =>
      obtain ⟨answer, one⟩ := wakeFirst_some found threadBy time msg
      have rest := ih (s.wakeFirst place due threadBy time msg).1
      rw [one.waiters, update_self] at rest
      rw [picked_succ found, left, answer]
      refine ⟨?_, ?_⟩
      · exact rest.waiters.trans (by rw [one.waiters, update_idem])
      · exact rest.resumed.trans (by rw [one.resumed, append_assoc]; rfl)

end Picks

lemma waiters_findFutex (address : Address) (s : Server) :
    (s.findFutex address).waiters = s.waiters ∧ (s.findFutex address).threads = s.threads := by
  rw [Server.findFutex]
  split
  · exact ⟨rfl, rfl⟩
  · refine ⟨?_, rfl⟩
    funext place
    cases place <;> rfl

/-! ## Bit sets -/

def Waiter.meets (bits : BitVec 32) (waiter : Waiter) : Bool := bits &&& waiter.mask ≠ 0

/-- What `FUTEX_WAKE_BITSET` is for: of the waiters on a futex, some that have one of the bits are
resumed in the order of the queue, as many as there are and were asked for, and all others stay. -/
structure WakesMatching (address : Address) (number : ℕ) (bits : BitVec 32) (s s' : Server)
    (woken : List Waiter) : Prop where
  inOrder : woken.Sublist (s.futexes address)
  matching : ∀ waiter ∈ woken, waiter.meets bits = true
  number : woken.length = min number ((s.futexes address).countP (Waiter.meets bits))
  resumed : ∃ resumes, s'.threads.resumed = s.threads.resumed ++ resumes ∧
    resumes.map Resume.thread = woken.map Waiter.thread
  others : (s.futexes address).Perm (woken ++ s'.futexes address)

section Bitsets

variable {cost : ℕ} {env : Env} {thread : ThreadId} {args : Args} {time : ℕ} {s : Server}

open Waiter

lemma meets_matchAny (waiter : Waiter) : waiter.meets matchAny = decide (waiter.mask ≠ 0) := by
  have all : matchAny &&& waiter.mask = waiter.mask := BitVec.allOnes_and
  rw [meets, all]

lemma futexWake_picks (address : Address) (nrWake mask : BitVec 32) :
    Picks (.futex address) (picked (meets mask) nrWake.toInt.toNat (s.futexes address))
      (left (meets mask) nrWake.toInt.toNat (s.futexes address))
      (fun waiter => ⟨waiter.thread, some thread, time + Server.applyRescheduleCost cost env true,
        true⟩) s (s.futexWake cost env address thread nrWake mask time).1 := by
  obtain ⟨waiters, threads⟩ := waiters_findFutex address s
  have picks := wakeLoop_picks (.futex address) (meets mask) (fun _ => some thread)
    (time + Server.applyRescheduleCost cost env true) true nrWake.toInt.toNat (s.findFutex address)
  rw [waiters] at picks
  exact ⟨picks.waiters.trans (by rw [waiters]; rfl), picks.resumed.trans (by rw [threads]; rfl)⟩

lemma length_picked_eq_min {p q : Waiter → Bool} (implies : ∀ waiter, p waiter = true →
      q waiter = true) {number : ℕ} {waiting : List Waiter}
    (all : ∀ waiter ∈ picked q number waiting, p waiter = true) :
    (picked q number waiting).length = min number (waiting.countP p) := by
  have fewer : waiting.countP p ≤ waiting.countP q :=
    countP_mono_left fun waiter _ => implies waiter
  have sublist : (picked q number waiting).length ≤ waiting.countP p := by
    rw [← List.countP_eq_length.mpr all]
    exact (picked_sublist q number waiting).countP_le
  rw [picked, length_take, ← countP_eq_length_filter] at *
  omega

lemma picked_matchAny (number : ℕ) (waiting : List Waiter) :
    picked (meets matchAny) number waiting = (waiting.filter (·.mask ≠ 0)).take number := by
  rw [picked, filter_congr fun waiter _ => meets_matchAny waiter]

lemma handleFutexCall_wakeBitset (bitset : Command.ofOp args.op = some .wakeBitset) :
    s.handleFutexCall cost thread args env time =
      .ok ((s.futexWake cost env (env.va2pa thread args.uaddr) thread args.val matchAny time).1,
        some (s.futexWake cost env (env.va2pa thread args.uaddr) thread args.val matchAny
          time).2) := by
  rw [Server.handleFutexCall, bitset]
  rfl

/-- The call wakes up the right waiters exactly when the first ones that have any bit, as many as it
asks for, have one of its bits. -/
theorem wakeBitset_wakes_matching_iff (cost : ℕ) (thread : ThreadId) (args : Args) (env : Env)
    (time : ℕ) (s : Server) (bitset : Command.ofOp args.op = some .wakeBitset) :
    (∃ s' result woken, s.handleFutexCall cost thread args env time = .ok (s', some result) ∧
      WakesMatching (env.va2pa thread args.uaddr) args.val.toInt.toNat args.val3 s s' woken) ↔
    ∀ waiter ∈ ((s.futexes (env.va2pa thread args.uaddr)).filter (·.mask ≠ 0)).take
      args.val.toInt.toNat, args.val3 &&& waiter.mask ≠ 0 := by
  have picks : Picks _ _ _ _ s
      (s.futexWake cost env (env.va2pa thread args.uaddr) thread args.val matchAny time).1 :=
    futexWake_picks (env.va2pa thread args.uaddr) args.val matchAny
  have queue := congrFun picks.waiters (.futex (env.va2pa thread args.uaddr))
  rw [update_self] at queue
  have parts := perm_append (Waiter.meets matchAny) args.val.toInt.toNat
    (s.futexes (env.va2pa thread args.uaddr))
  rw [handleFutexCall_wakeBitset bitset, ← picked_matchAny]
  constructor
  · rintro ⟨s', result, woken, returned, wakes⟩ waiter mem
    cases returned
    have both := wakes.others.symm.trans parts
    change (woken ++ Server.waiters _ (.futex _)).Perm _ at both
    rw [queue, perm_append_right_iff] at both
    exact of_decide_eq_true (wakes.matching waiter (both.mem_iff.mpr mem))
  · intro all
    have met : ∀ waiter ∈ picked (Waiter.meets matchAny) args.val.toInt.toNat
        (s.futexes (env.va2pa thread args.uaddr)), waiter.meets args.val3 = true :=
      fun waiter mem => decide_eq_true (all waiter mem)
    have nonzero : ∀ waiter : Waiter, waiter.meets args.val3 = true →
        waiter.meets matchAny = true := by
      intro waiter meets
      rw [meets_matchAny, decide_eq_true_eq]
      intro zero
      simp [Waiter.meets, zero] at meets
    refine ⟨_, _, _, rfl, picked_sublist _ _ _, met, length_picked_eq_min nonzero met,
      picks.threads fun _ => rfl, ?_⟩
    change List.Perm _ (_ ++ Server.waiters _ (.futex _))
    rw [queue]
    exact parts

def quietEnv : Env := ⟨fun _ address => address, 7, 0, 0, none⟩

/-- `FUTEX_WAIT_BITSET` with these bits. -/
def waitBits (thread : ThreadId) (bits : BitVec 32) : Event :=
  .futex thread ⟨0x100, 9, 0, 0, 0, bits⟩ quietEnv 10

def twoBitsets : Server :=
  (Server.enqueueWaiter 0x100 1 1 maxTime .start).enqueueWaiter 0x100 2 2 maxTime

/-- The first of them has the bit that the call is about. -/
theorem wakeBitset_first_matching : ∃ s' result woken,
      twoBitsets.handleFutexCall 5 3 ⟨0x100, 10, 1, 0, 0, 1⟩ quietEnv 20 = .ok (s', some result) ∧
      WakesMatching 0x100 1 1 twoBitsets s' woken :=
  (wakeBitset_wakes_matching_iff 5 3 ⟨0x100, 10, 1, 0, 0, 1⟩ quietEnv 20 twoBitsets rfl).mpr
    (by decide)

/-- The call is about the bit of thread 2, and wakes up thread 1. -/
theorem wakeBitset_wakes_other :
    (Runs.run (step 5) (.ok .start) [waitBits 1 1, waitBits 2 2]).toOption.map
        (fun s => s.server.futexes 0x100) = some [⟨1, 1, maxTime⟩, ⟨2, 2, maxTime⟩] ∧
    (Runs.run (step 5) (.ok .start) [waitBits 1 1, waitBits 2 2,
        .futex 3 ⟨0x100, 10, 1, 0, 0, 2⟩ quietEnv 20]).toOption.map
        (fun s => (s.server.threads.resumed.map Resume.thread, s.server.futexes 0x100)) =
      some ([1], [⟨2, 2, maxTime⟩]) := by
  decide

end Bitsets

/-! ## Moving waiters -/

def Server.onEither (s : Server) (address address2 : Address) : List Waiter :=
  if address = address2 then s.futexes address else s.futexes address ++ s.futexes address2

/-- What `FUTEX_CMP_REQUEUE` is for: some waiters are resumed, and all others of both futexes are on
the second one, each of them once. -/
structure Requeues (address address2 : Address) (s s' : Server) (woken : List Waiter) : Prop where
  resumed : ∃ resumes, s'.threads.resumed = s.threads.resumed ++ resumes ∧
    resumes.map Resume.thread = woken.map Waiter.thread
  others : (s.onEither address address2).Perm (woken ++ s'.futexes address2)

section Requeue

variable {address requeue : Address} {s : Server} {thread : ThreadId} {val val3 actVal : BitVec 32}
  {time : ℕ}

variable {waiting : List Waiter}

open Server

lemma requeueWaiter_moves {waiter : Waiter}
    (queue : s.futexes address = waiter :: waiting) (different : address ≠ requeue) :
    (s.requeueWaiter address requeue).2 = some waiter.thread ∧
      (s.requeueWaiter address requeue).1.futexes address = waiting ∧
      (s.requeueWaiter address requeue).1.futexes requeue = s.futexes requeue ++ [waiter] ∧
      (s.requeueWaiter address requeue).1.threads = s.threads := by
  rw [requeueWaiter, queue]
  refine ⟨rfl, ?_, ?_, rfl⟩
  · simp [setWaiters, different]
  · simp [setWaiters, Ne.symm different]

lemma requeueLoop_empty (empty : s.futexes address = []) (requeue : Address) (fuel : ℕ) :
    s.requeueLoop address requeue (fuel + 1) = .ok s := by
  rw [requeueLoop, if_pos (requeueWaiter_eq_none_iff.mpr empty), requeueWaiter, empty]

lemma requeueLoop_moves (different : address ≠ requeue) (queue : s.futexes address = waiting) :
    ∃ s', s.requeueLoop address requeue (waiting.length + 1) = .ok s' ∧
      s'.futexes requeue = s.futexes requeue ++ waiting ∧ s'.threads = s.threads := by
  induction waiting generalizing s with
  | nil => exact ⟨s, requeueLoop_empty queue requeue 0, (append_nil _).symm, rfl⟩
  | cons waiter waiting ih =>
    obtain ⟨answer, left, moved, threads⟩ := requeueWaiter_moves queue different
    obtain ⟨s', ended, there, same⟩ := ih left
    refine ⟨s', ?_, ?_, same.trans threads⟩
    · rw [length_cons, requeueLoop, answer, if_neg (Option.some_ne_none _)]
      exact ended
    · rw [there, moved, append_assoc, singleton_append]

def requeueStart (address requeue : Address) (thread : ThreadId) (val : BitVec 32) (time : ℕ)
    (s : Server) : Server :=
  (Server.wakeLoop (Server.dequeueWaiter address thread matchAny time) val.toInt.toNat
    (s.findFutex address)).1.findFutex requeue

lemma requeueStart_picks (address requeue : Address) (thread : ThreadId) (val : BitVec 32)
    (time : ℕ) (s : Server) :
    Picks (.futex address) (picked (Waiter.meets matchAny) val.toInt.toNat (s.futexes address))
      (left (Waiter.meets matchAny) val.toInt.toNat (s.futexes address))
      (fun waiter => ⟨waiter.thread, some thread, time, true⟩) s
      (requeueStart address requeue thread val time s) := by
  obtain ⟨waiters, threads⟩ := waiters_findFutex address s
  obtain ⟨waiters', threads'⟩ := waiters_findFutex requeue
    (wakeLoop (dequeueWaiter address thread matchAny time) val.toInt.toNat (s.findFutex address)).1
  have picks := wakeLoop_picks (.futex address) (Waiter.meets matchAny) (fun _ => some thread)
    time true val.toInt.toNat (s.findFutex address)
  rw [waiters] at picks
  refine ⟨waiters'.trans (picks.waiters.trans ?_), ?_⟩
  · rw [waiters]
    rfl
  · rw [requeueStart, threads']
    refine picks.resumed.trans ?_
    rw [threads]
    rfl

lemma futexCmpRequeue_eq (equal : val3 = actVal) :
    ∃ number : ℤ, s.futexCmpRequeue address requeue thread val val3 actVal time =
      ((requeueStart address requeue thread val time s).requeueLoop address requeue
        (((requeueStart address requeue thread val time s).futexes address).length + 1)).map
          fun s => (s, number, time) := by
  rw [futexCmpRequeue, if_neg (not_not.mpr equal)]
  exact ⟨_, rfl⟩

lemma futexCmpRequeue_moves (different : address ≠ requeue) (equal : val3 = actVal) : ∃ s' result,
      s.futexCmpRequeue address requeue thread val val3 actVal time = .ok (s', result) ∧
      ∃ woken, Requeues address requeue s s' woken := by
  have picks := requeueStart_picks address requeue thread val time s
  have queue : (requeueStart address requeue thread val time s).futexes address = _ :=
    congrFun picks.waiters (.futex address)
  have other : (requeueStart address requeue thread val time s).futexes requeue = _ :=
    congrFun picks.waiters (.futex requeue)
  rw [update_self] at queue
  rw [update_of_ne (by simpa using Ne.symm different)] at other
  obtain ⟨number, same⟩ := futexCmpRequeue_eq (s := s) equal
  obtain ⟨s', ended, there, threads⟩ := requeueLoop_moves different queue
  rw [same, queue, ended]
  refine ⟨s', _, rfl, picked (Waiter.meets matchAny) val.toInt.toNat (s.futexes address), ?_, ?_⟩
  · rw [threads]
    exact picks.threads fun _ => rfl
  · rw [onEither, if_neg different, there, other]
    have parts := perm_append (Waiter.meets matchAny) val.toInt.toNat (s.futexes address)
    refine (parts.append_right (s.futexes requeue)).trans ?_
    rw [append_assoc]
    exact List.perm_append_comm.append_left _

lemma futexCmpRequeue_same (equal : val3 = actVal) :
    (∃ s' result, s.futexCmpRequeue address address thread val val3 actVal time = .ok (s', result) ∧
      ∃ woken, Requeues address address s s' woken) ↔
    (s.futexes address).length ≤ val.toInt.toNat ∧
      ∀ waiter ∈ s.futexes address, waiter.mask ≠ 0 := by
  have picks := requeueStart_picks address address thread val time s
  have queue : (requeueStart address address thread val time s).futexes address = _ :=
    congrFun picks.waiters (.futex address)
  rw [update_self] at queue
  have all : (∀ waiter ∈ s.futexes address, waiter.mask ≠ 0) ↔
      ∀ waiter ∈ s.futexes address, waiter.meets matchAny = true := by
    simp only [meets_matchAny, decide_eq_true_eq]
  obtain ⟨number, same⟩ := futexCmpRequeue_eq (s := s) equal
  rw [all, ← left_eq_nil_iff, same, ← queue]
  constructor
  · rintro ⟨s', result, returned, -⟩
    by_contra some
    rw [requeueLoop_same some] at returned
    cases returned
  · intro none
    have ended := requeueLoop_empty none address 0
    rw [none, length_nil, ended]
    refine ⟨_, _, rfl, _, picks.threads fun _ => rfl, ?_⟩
    rw [onEither, if_pos rfl, queue]
    exact perm_append _ _ _

lemma handleFutexCall_cmpRequeue {cost : ℕ} {args : Args} {env : Env}
    (requeue : Command.ofOp args.op = some .cmpRequeue) (different : args.uaddr ≠ args.uaddr2) :
    s.handleFutexCall cost thread args env time =
      (s.futexCmpRequeue (env.va2pa thread args.uaddr) (env.va2pa thread args.uaddr2) thread
        args.val args.val3 env.actVal time).map fun done => (done.1, some done.2) := by
  rw [handleFutexCall, requeue]
  exact if_neg different

lemma returns_iff {moved : Except Fault (Server × ℤ × ℕ)} {P : Server → Prop}
    (equal : val3 = actVal) :
    (∃ s' result, moved.map (fun done => (done.1, some done.2)) = .ok (s', some result) ∧
      (val3 = actVal → P s')) ↔ ∃ s' result, moved = .ok (s', result) ∧ P s' := by
  cases moved with
  | error fault => simp [Except.map]
  | ok done => simp [Except.map, equal, Prod.ext_iff]

/-- The call ends and moves the waiters exactly when it finds another value, or two futexes, or has
woken up all waiters before it begins to move them. -/
theorem cmpRequeue_requeues_iff (cost : ℕ) (thread : ThreadId) (args : Args) (env : Env) (time : ℕ)
    (s : Server) (requeue : Command.ofOp args.op = some .cmpRequeue)
    (different : args.uaddr ≠ args.uaddr2) :
    (∃ s' result, s.handleFutexCall cost thread args env time = .ok (s', some result) ∧
      (args.val3 = env.actVal → ∃ woken,
        Requeues (env.va2pa thread args.uaddr) (env.va2pa thread args.uaddr2) s s' woken)) ↔
    args.val3 ≠ env.actVal ∨ env.va2pa thread args.uaddr ≠ env.va2pa thread args.uaddr2 ∨
      (s.futexes (env.va2pa thread args.uaddr)).length ≤ args.val.toInt.toNat ∧
        ∀ waiter ∈ s.futexes (env.va2pa thread args.uaddr), waiter.mask ≠ 0 := by
  rw [handleFutexCall_cmpRequeue requeue different]
  by_cases equal : args.val3 = env.actVal
  · rw [or_iff_right (not_not.mpr equal)]
    by_cases same : env.va2pa thread args.uaddr = env.va2pa thread args.uaddr2
    · rw [or_iff_right (not_not.mpr same), ← same, ← futexCmpRequeue_same equal]
      exact returns_iff equal
    · refine iff_of_true ?_ (.inl same)
      exact (returns_iff equal).mpr (futexCmpRequeue_moves same equal)
  · rw [futexCmpRequeue, if_pos equal]
    exact iff_of_true ⟨_, _, rfl, fun same => absurd same equal⟩ (.inl equal)

def twoSleepers : Server :=
  .enqueueWaiter 0x100 3 matchAny maxTime (.enqueueWaiter 0x100 1 matchAny maxTime .start)

/-- Of two waiters one is woken up and the other moved. -/
theorem cmpRequeue_wakes_and_moves : ∃ s' result,
      twoSleepers.handleFutexCall 5 2 ⟨0x100, 4, 1, 0, 0x200, 0⟩
        ⟨fun _ address => address, 7, 0, 0, none⟩ 20 = .ok (s', some result) ∧
      ((0 : BitVec 32) = 0 → ∃ woken, Requeues 0x100 0x200 twoSleepers s' woken) ∧
      (s'.futexes 0x200).map (·.thread) = [3] := by
  obtain ⟨s', result, ran, moved⟩ := (cmpRequeue_requeues_iff 5 2 ⟨0x100, 4, 1, 0, 0x200, 0⟩
    ⟨fun _ address => address, 7, 0, 0, none⟩ 20 twoSleepers rfl (by decide)).mpr (by decide)
  refine ⟨s', result, ran, moved, ?_⟩
  have there := congrArg (fun done => done.toOption.map fun done =>
    (done.1.futexes 0x200).map (·.thread)) ran
  exact (Option.some.inj there).symm

def aliasedEnv : Env := ⟨fun _ _ => 0x40, 7, 0, 0, none⟩

/-- The waiter is moved from the queue to its end for ever. -/
theorem cmpRequeue_aliased_endless :
    ∃ s, Runs.run (step 5) (.ok .start) [.futex 1 ⟨0x100, 0, 0, 0, 0, 0⟩ aliasedEnv 10] = .ok s ∧
      s.server.handleFutexCall 5 2 ⟨0x100, 4, 0, 0, 0x200, 0⟩ aliasedEnv 20 = .error .requeueing ∧
      ∀ fuel, (requeueStart 0x40 0x40 2 0 20 s.server).requeueLoop 0x40 0x40 fuel =
        .error .requeueing :=
  ⟨_, rfl, rfl, requeueLoop_same (by decide)⟩

end Requeue

end Sniper.System.Futex
