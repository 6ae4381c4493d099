import Mathlib.Data.BitVec
import Mathlib.Tactic.Ring
import Sniper.System.FutexCalls

/-!
# Timeouts of futexes

A thread that is alone on its futex and that nobody wakes up stays there until a periodic call finds
its timeout, and leaves with this call. The timeout is what `handleFutexCall` makes of the relative
time in the call, from which it takes the start of the emulated clock as if it were an absolute one.
-/

namespace Sniper.System.Futex

open Fallible Places List Function Except Nat Runs

/-! ## Futexes are not forgotten -/

section Known

variable {s : Server} {address : Address}

lemma known_wakeFirst (place : Place) (due : Waiter → Bool) (threadBy : Waiter → Option ThreadId)
    (time : ℕ) (msg : Bool) (s : Server) :
    (s.wakeFirst place due threadBy time msg).1.known = s.known := by
  rw [Server.wakeFirst]
  split
  · rfl
  · cases place <;> rfl

lemma known_wakeLoop {wakeOne : Server → Server × Option ThreadId}
    (one : ∀ s, (wakeOne s).1.known = s.known) (number : ℕ) (s : Server) :
    (Server.wakeLoop wakeOne number s).1.known = s.known :=
  wakeLoop_relates (R := fun s s' => s'.known = s.known) (fun _ => rfl)
    (fun _ _ _ first second => second.trans first) one number s

lemma known_requeueWaiter (address requeue : Address) (s : Server) :
    (s.requeueWaiter address requeue).1.known = s.known := by
  rw [Server.requeueWaiter]
  split
  · rfl
  · rfl

variable {requeue : Address}

lemma known_requeueLoop {address : Address} {fuel : ℕ} {s' : Server}
    (ended : s.requeueLoop address requeue fuel = .ok s') : s'.known = s.known := by
  induction fuel generalizing s with
  | zero => cases ended
  | succ fuel ih =>
    have moved := known_requeueWaiter address requeue s
    rw [Server.requeueLoop] at ended
    split at ended
    · rw [← ok.inj ended, moved]
    · rw [ih ended, moved]

lemma known_findFutex (address : Address) (s : Server) :
    s.known ⊆ (s.findFutex address).known ∧ address ∈ (s.findFutex address).known := by
  rw [Server.findFutex]
  split
  · next seen => exact ⟨List.Subset.refl _, seen⟩
  · exact ⟨subset_append_left _ _, mem_append_right _ mem_cons_self⟩

variable {done : Server × ℤ × ℕ} {env : Env} {thread : ThreadId}

lemma known_wakeFutex (cost : ℕ) (address : Address) (mask : BitVec 32) (time number : ℕ)
    (s : Server) : (Server.wakeLoop (Server.wakeFutexOne cost env address thread mask time) number
      s).1.known = s.known :=
  known_wakeLoop (fun s => known_wakeFirst (.futex address) _ _ _ _ s) number s

lemma known_futexWakeOp {cost : ℕ} {address address2 : Address}
    {nrWake nrWake2 op : BitVec 32} {time : ℕ}
    (ran : s.futexWakeOp cost env address address2 thread nrWake nrWake2 op time = .ok done) :
    done.1.known = ((s.findFutex address).findFutex address2).known := by
  obtain ⟨outcome, -, rfl⟩ := map_eq_ok.mp ran
  split
  · rw [known_wakeFutex, known_wakeFutex]
  · rw [known_wakeFutex]

lemma known_futexCmpRequeue {address : Address} {val val3 actVal : BitVec 32} {time : ℕ}
    (ran : s.futexCmpRequeue address requeue thread val val3 actVal time = .ok done) :
    (s.findFutex address).known ⊆ done.1.known := by
  by_cases equal : val3 = actVal
  · obtain ⟨number, same⟩ := futexCmpRequeue_eq (s := s) equal
    rw [same] at ran
    obtain ⟨s', ended, rfl⟩ := map_eq_ok.mp ran
    have woken : (Server.wakeLoop (Server.dequeueWaiter address thread matchAny time)
        val.toInt.toNat (s.findFutex address)).1.known = (s.findFutex address).known :=
      known_wakeLoop (fun s => known_wakeFirst (.futex address) _ _ _ _ s) _ _
    rw [known_requeueLoop ended, ← woken]
    exact (known_findFutex requeue _).1
  · rw [Server.futexCmpRequeue, if_pos equal] at ran
    rw [← ok.inj ran]
    exact List.Subset.refl _

lemma known_handleFutexCall {cost : ℕ} {args : Args} {time : ℕ} {done : Server × Option (ℤ × ℕ)}
    (ran : s.handleFutexCall cost thread args env time = .ok done) : s.known ⊆ done.1.known := by
  have found := (known_findFutex (env.va2pa thread args.uaddr) s).1
  rw [Server.handleFutexCall] at ran
  cases decoded : Command.ofOp args.op with
  | none =>
    rw [decoded] at ran
    cases ran
  | some command =>
    rw [decoded] at ran
    cases command with
    | wait | waitBitset =>
      rw [← ok.inj ran, Server.futexWait]
      split <;> exact found
    | wake | wakeBitset =>
      rw [← ok.inj ran]
      dsimp only [Server.futexWake]
      rw [known_wakeFutex]
      exact found
    | wakeOp =>
      obtain ⟨result, woken, rfl⟩ := map_eq_ok.mp ran
      dsimp only
      rw [known_futexWakeOp woken]
      exact List.Subset.trans found (known_findFutex _ _).1
    | cmpRequeue =>
      dsimp only at ran
      split at ran
      · cases ran
      · obtain ⟨result, moved, rfl⟩ := map_eq_ok.mp ran
        exact List.Subset.trans found (known_futexCmpRequeue moved)

lemma known_futexPeriodic (time : ℕ) (order : List Address) (s : Server) :
    (s.futexPeriodic time order).known = s.known :=
  futexPeriodic_relates (R := fun s s' => s'.known = s.known) (fun _ => rfl)
    (fun _ _ _ first second => second.trans first)
    (fun place threadBy s => known_wakeFirst place _ threadBy _ _ s) order s

lemma known_handle {cost : ℕ} {s s' : State} {event : Event}
    (ran : s.handle cost event = .ok s') : s.server.known ⊆ s'.server.known := by
  cases event with
  | futex thread args env time =>
    obtain ⟨done, called, result⟩ := map_eq_ok.mp ran
    have known := known_handleFutexCall called
    rw [← result]
    split
    · exact known
    · exact known
  | sleep thread wakeTime =>
    rw [← ok.inj ran]
    exact List.Subset.refl _
  | finish thread =>
    rw [← ok.inj ran]
    exact List.Subset.refl _
  | periodic time order =>
    rw [← ok.inj ran]
    rw [known_futexPeriodic]
    exact List.Subset.refl _

end Known

/-! ## A periodic call and one futex -/

section Walk

variable {s : Server} {address : Address} {waiter : Waiter} {time : ℕ}

lemma sublist_wakeFirst (place : Place) (due : Waiter → Bool)
    (threadBy : Waiter → Option ThreadId) (time : ℕ) (msg : Bool) (s : Server) (there : Place) :
    ((s.wakeFirst place due threadBy time msg).1.waiters there).Sublist (s.waiters there) := by
  cases found : (s.waiters place).find? due with
  | none => rw [wakeFirst_none found]
  | some waiter =>
    rw [(wakeFirst_some found threadBy time msg).2.waiters]
    by_cases same : there = place
    · rw [same, update_self]
      exact eraseP_sublist
    · rw [update_of_ne same]

lemma sublist_walk (time : ℕ) (order : List Address) (s : Server) (place : Place) :
    ((order.foldl (Server.wakeTimedOut time) s).waiters place).Sublist (s.waiters place) := by
  induction order generalizing s with
  | nil => exact .refl _
  | cons address order ih => exact (ih _).trans (sublist_wakeFirst (.futex address) _ _ _ _ s place)

lemma sublist_futexPeriodic (time : ℕ) (order : List Address) (s : Server) (place : Place) :
    ((s.futexPeriodic time order).waiters place).Sublist (s.waiters place) :=
  (sublist_walk time order _ place).trans (sublist_wakeFirst .sleeping _ _ _ _ s place)

lemma waiters_wakeFirst_other (place : Place) {there : Place} (other : there ≠ place)
    (due : Waiter → Bool) (threadBy : Waiter → Option ThreadId) (time : ℕ) (msg : Bool)
    (s : Server) : (s.wakeFirst place due threadBy time msg).1.waiters there = s.waiters there := by
  cases found : (s.waiters place).find? due with
  | none => rw [wakeFirst_none found]
  | some waiter => rw [(wakeFirst_some found threadBy time msg).2.waiters, update_of_ne other]

lemma futexes_wakeTimedOut_other {there : Address} (other : there ≠ address) (time : ℕ)
    (s : Server) : (s.wakeTimedOut time there).futexes address = s.futexes address := by
  have apart : Place.futex address ≠ .futex there := fun same => other (Place.futex.inj same).symm
  exact waiters_wakeFirst_other (.futex there) apart _ _ _ _ s

lemma futexes_wakeSleeping (time : ℕ) (s : Server) (address : Address) :
    (s.wakeFirst .sleeping (fun waiter => waiter.timeout ≤ time) (fun waiter => some waiter.thread)
      time false).1.futexes address = s.futexes address := by
  have apart : Place.futex address ≠ .sleeping := by simp
  exact waiters_wakeFirst_other .sleeping apart _ _ _ _ s

lemma futexes_wakeTimedOut_early (early : ∀ waiter ∈ s.futexes address, time < waiter.timeout) :
    (s.wakeTimedOut time address).futexes address = s.futexes address := by
  have none : (s.waiters (.futex address)).find? (fun waiter => decide (waiter.timeout ≤ time)) =
      none := find?_eq_none.mpr fun waiter mem => by simpa using early waiter mem
  rw [Server.wakeTimedOut, wakeFirst_none none]

lemma futexes_wakeTimedOut_due (alone : s.futexes address = [waiter])
    (due : waiter.timeout ≤ time) : (s.wakeTimedOut time address).futexes address = [] := by
  have here : s.waiters (.futex address) = [waiter] := alone
  have found : (s.waiters (.futex address)).find? (fun waiter => decide (waiter.timeout ≤ time)) =
      some waiter := by
    rw [here]
    exact find?_cons_of_pos (decide_eq_true due)
  change (s.wakeTimedOut time address).waiters (.futex address) = []
  rw [Server.wakeTimedOut, (wakeFirst_some found _ _ _).2.waiters, update_self, here]
  exact eraseP_cons_of_pos (decide_eq_true due)

lemma futexPeriodic_early (early : ∀ waiter ∈ s.futexes address, time < waiter.timeout)
    (order : List Address) : (s.futexPeriodic time order).futexes address = s.futexes address := by
  have walk : ∀ s : Server, (∀ waiter ∈ s.futexes address, time < waiter.timeout) →
      (order.foldl (Server.wakeTimedOut time) s).futexes address = s.futexes address := by
    induction order with
    | nil => exact fun _ _ => rfl
    | cons there order ih =>
      intro s early
      have same : (s.wakeTimedOut time there).futexes address = s.futexes address := by
        by_cases here : there = address
        · rw [here]
          exact futexes_wakeTimedOut_early early
        · exact futexes_wakeTimedOut_other here time s
      exact (ih _ (same ▸ early)).trans same
  have same := futexes_wakeSleeping time s address
  exact (walk _ (same ▸ early)).trans same

lemma futexPeriodic_due (alone : s.futexes address = [waiter]) (due : waiter.timeout ≤ time)
    {order : List Address} (mem : address ∈ order) :
    (s.futexPeriodic time order).futexes address = [] := by
  have walk : ∀ s : Server, s.futexes address = [waiter] →
      (order.foldl (Server.wakeTimedOut time) s).futexes address = [] := by
    induction order with
    | nil => cases mem
    | cons there order ih =>
      intro s alone
      by_cases here : there = address
      · have gone := futexes_wakeTimedOut_due alone due
        have rest := sublist_walk time order (s.wakeTimedOut time address) (.futex address)
        change List.Sublist (Server.futexes _ _) (Server.futexes _ _) at rest
        rw [gone, sublist_nil] at rest
        rw [foldl_cons, here]
        exact rest
      · have same := futexes_wakeTimedOut_other here time s
        exact ih ((mem_cons.mp mem).resolve_left (Ne.symm here)) _ (same.trans alone)
  exact walk _ ((futexes_wakeSleeping time s address).trans alone)

end Walk

/-! ## Waiting alone -/

/-- A call that leaves the queue of a futex alone, or a periodic call before the deadline. -/
def Undisturbed (cost : ℕ) (address : Address) (deadline : ℕ) (s : State) (event : Event) : Prop :=
  Permitted s event ∧ match event with
    | .periodic time _ => time < deadline
    | _ => ∀ s', s.handle cost event = .ok s' →
      s'.server.futexes address = s.server.futexes address

/-- A thread that waits on a futex, where nobody comes, goes or is woken up, is resumed as timed out
by the first periodic call that is not before the deadline, and not before. -/
def GivesUp (cost : ℕ) (thread : ThreadId) (address : Address) (deadline : ℕ) (s : State) : Prop :=
  ∀ events s', Guarded (step cost)
      (fun state event => ∀ s, state = .ok s → Undisturbed cost address deadline s event)
      (.ok s) events → run (step cost) (.ok s) events = .ok s' →
    s'.phase thread = .blocked ∧
    ∀ time order s'', Permitted s' (.periodic time order) → deadline ≤ time →
      s'.handle cost (.periodic time order) = .ok s'' → s''.phase thread = .timedOut

structure Waiting (address : Address) (waiter : Waiter) (s : State) : Prop where
  sound : Sound s
  alone : s.server.futexes address = [waiter]
  known : address ∈ s.server.known

section Waiting

variable {cost : ℕ} {address : Address} {waiter : Waiter} {s s' : State} {deadline : ℕ}

section

variable (waiting : Waiting address waiter s)

include waiting

lemma Waiting.mem_queue : waiter.thread ∈ s.server.queue (.futex address) := by
  change waiter.thread ∈ (s.server.futexes address).map Waiter.thread
  rw [waiting.alone]
  exact mem_cons_self

lemma Waiting.blocked : s.phase waiter.thread = .blocked :=
  waiting.sound.blocked_iff.mpr ⟨address, waiting.mem_queue⟩

variable {order : List Address}

lemma Waiting.early {time : ℕ} (early : time < waiter.timeout)
    (ran : s.handle cost (.periodic time order) = .ok s') : Waiting address waiter s' := by
  refine ⟨(waiting.sound.periodic ran).1, ?_, known_handle ran waiting.known⟩
  rw [← ok.inj ran]
  refine (futexPeriodic_early ?_ order).trans waiting.alone
  intro other mem
  rw [waiting.alone, mem_singleton] at mem
  rw [mem]
  exact early

lemma Waiting.due {time : ℕ} (due : waiter.timeout ≤ time) (walked : order.Perm s.server.known)
    (ran : s.handle cost (.periodic time order) = .ok s') : s'.phase waiter.thread = .timedOut := by
  have keeps : Keeps (fun waiter => waiter.timeout ≤ time) false s.server s'.server := by
    rw [← ok.inj ran]
    exact keeps_futexPeriodic time order s.server
  have gone : s'.server.futexes address = [] := by
    rw [← ok.inj ran]
    exact futexPeriodic_due waiting.alone due (walked.mem_iff.mpr waiting.known)
  have fewer : ∀ place, (s'.server.waiters place).Sublist (s.server.waiters place) := by
    rw [← ok.inj ran]
    exact sublist_futexPeriodic time order s.server
  have inside : s'.inside = s.inside := by rw [← ok.inj ran]
  have entered : s'.entered = s.entered := by rw [← ok.inj ran]
  obtain ⟨sound, phases⟩ := waiting.sound.wakes keeps inside entered
  rcases phases waiter.thread with same | ⟨-, after, -⟩
  · -- the thread would be in a queue still, and there is no other queue than its own
    rw [waiting.blocked, sound.blocked_iff] at same
    obtain ⟨there, mem⟩ := same
    have before := ((fewer (.futex there)).map Waiter.thread).subset mem
    have place := waiting.sound.orderly.exclusive.unique _ _ _ before waiting.mem_queue
    rw [place] at mem
    change waiter.thread ∈ (s'.server.futexes address).map Waiter.thread at mem
    rw [gone] at mem
    cases mem
  · exact after

lemma Waiting.keeps {event : Event} (undisturbed : Undisturbed cost address waiter.timeout s event)
    (ran : s.handle cost event = .ok s') : Waiting address waiter s' := by
  obtain ⟨permitted, alone⟩ := undisturbed
  have sound := (waiting.sound.handle permitted ran).1
  have known := known_handle ran waiting.known
  cases event with
  | futex thread args env time => exact ⟨sound, (alone s' ran).trans waiting.alone, known⟩
  | sleep thread wakeTime => exact ⟨sound, (alone s' ran).trans waiting.alone, known⟩
  | finish thread => exact ⟨sound, (alone s' ran).trans waiting.alone, known⟩
  | periodic time order => exact waiting.early alone ran

lemma Waiting.stays {events : List Event}
    (undisturbed : Guarded (step cost) (fun state event => ∀ s, state = .ok s →
      Undisturbed cost address waiter.timeout s event) (.ok s) events)
    (ran : run (step cost) (.ok s) events = .ok s') : Waiting address waiter s' := by
  refine run_guarded (I := fun state => ∀ s, state = .ok s → Waiting address waiter s)
    ?_ ?_ undisturbed s' ran
  · rintro state event waiting undisturbed after stepped
    obtain ⟨before, rfl, handled⟩ := bind_eq_ok.mp stepped
    exact (waiting before rfl).keeps (undisturbed before rfl) handled
  · rintro before ⟨⟩
    exact waiting

lemma Waiting.givesUp_iff :
    GivesUp cost waiter.thread address deadline s ↔ waiter.timeout = deadline := by
  constructor
  · intro givesUp
    rcases lt_trichotomy waiter.timeout deadline with sooner | same | later
    · have due : s.handle cost (.periodic waiter.timeout s.server.known) = .ok _ := rfl
      obtain ⟨blocked, -⟩ := givesUp [.periodic waiter.timeout s.server.known] _
        ⟨by rintro _ ⟨⟩; exact ⟨.refl _, sooner⟩, trivial⟩ rfl
      have timedOut := waiting.due le_rfl (.refl _) due
      rw [← ok.inj due, blocked] at timedOut
      cases timedOut
    · exact same
    · obtain ⟨-, due⟩ := givesUp [] s trivial rfl
      have early : s.handle cost (.periodic deadline s.server.known) = .ok _ := rfl
      have timedOut := due deadline s.server.known _ (.refl _) le_rfl early
      rw [(waiting.early later early).blocked] at timedOut
      cases timedOut
  · rintro rfl events s' undisturbed ran
    have after := waiting.stays undisturbed ran
    exact ⟨after.blocked, fun time order s'' walked due handled => after.due due walked handled⟩

end

lemma waiters_enqueue (place : Place) (waiter : Waiter) (reason : StallType) (s : Server) :
    (s.enqueue place waiter reason).waiters =
      update s.waiters place (s.waiters place ++ [waiter]) :=
  waiters_setWaiters s _ place

lemma waiting_of_wait {thread : ThreadId} {args : Args} {env : Env} {time : ℕ} (sound : Sound s)
    (permitted : Permitted s (.futex thread args env time))
    (wait : Command.ofOp args.op = some .wait) (equal : args.val = env.actVal)
    (nobody : s.server.futexes (env.va2pa thread args.uaddr) = [])
    (called : s.handle cost (.futex thread args env time) = .ok s') :
    Waiting (env.va2pa thread args.uaddr)
      ⟨thread, matchAny, Server.timeoutTime .wait time env.timeout⟩ s' := by
  have done : s.server.handleFutexCall cost thread args env time =
      .ok ((s.server.findFutex (env.va2pa thread args.uaddr)).enqueueWaiter
        (env.va2pa thread args.uaddr) thread matchAny
        (Server.timeoutTime .wait time env.timeout), none) := by
    rw [Server.handleFutexCall, wait]
    refine congrArg ok ?_
    exact if_neg (not_not.mpr equal)
  have found := congrFun (waiters_findFutex (env.va2pa thread args.uaddr) s.server).1
    (.futex (env.va2pa thread args.uaddr))
  have sound' := (sound.handle permitted called).1
  rw [State.handle, done] at called
  cases called
  refine ⟨sound', ?_, (known_findFutex _ s.server).2⟩
  refine (congrFun (waiters_enqueue _ _ _ _) (.futex _)).trans ?_
  rw [update_self, found]
  exact congrArg (· ++ _) nobody

end Waiting

/-! ## The clock -/

lemma seconds_eq_zero_iff (S : ℕ) : BitVec.ofNat 64 S * 1000000000000000 = 0 ↔ 2 ^ 49 ∣ S := by
  have product : BitVec.ofNat 64 S * 1000000000000000 = BitVec.ofNat 64 (S * 1000000000000000) :=
    (BitVec.ofNat_mul ..).symm
  rw [product, ← BitVec.toNat_inj, BitVec.toNat_ofNat]
  change S * (32768 * 30517578125) % (562949953421312 * 32768) = 0 ↔ _
  rw [← dvd_iff_mod_eq_zero, mul_comm 32768, ← mul_assoc,
    mul_dvd_mul_iff_right (by decide)]
  exact Nat.Coprime.dvd_mul_right (by decide)

lemma maxTime_succ : maxTime + 1 = 2 ^ 64 := by decide

lemma timeoutTime_eq_iff {time sec nsec : ℕ}
    (fits : time + sec * 1000000000000000 + nsec * 1000000 ≤ maxTime) (S : ℕ) :
    Server.timeoutTime .wait time (some (Timespec.timeoutVal (BitVec.ofNat 64 S)
      ⟨BitVec.ofNat 64 sec, BitVec.ofNat 64 nsec⟩)) =
        time + sec * 1000000000000000 + nsec * 1000000 ↔
      2 ^ 49 ∣ S := by
  have wraps : Server.timeoutTime .wait time (some (Timespec.timeoutVal (BitVec.ofNat 64 S)
      ⟨BitVec.ofNat 64 sec, BitVec.ofNat 64 nsec⟩)) =
      (BitVec.ofNat 64 time + ((BitVec.ofNat 64 sec - BitVec.ofNat 64 S) * 1000000000000000 +
        BitVec.ofNat 64 nsec * 1000000)).toNat := by
    rw [BitVec.toNat_add, BitVec.toNat_ofNat, mod_add_mod, Server.timeoutTime,
      if_neg (by decide), Timespec.timeoutVal, maxTime_succ]
  have deadline : time + sec * 1000000000000000 + nsec * 1000000 =
      (BitVec.ofNat 64 time + BitVec.ofNat 64 sec * 1000000000000000 +
        BitVec.ofNat 64 nsec * 1000000).toNat := by
    have sum : BitVec.ofNat 64 time + BitVec.ofNat 64 sec * 1000000000000000 +
        BitVec.ofNat 64 nsec * 1000000 =
          BitVec.ofNat 64 (time + sec * 1000000000000000 + nsec * 1000000) := by
      simp [BitVec.ofNat_add, BitVec.ofNat_mul]
    rw [sum, BitVec.toNat_ofNat, ← maxTime_succ, mod_eq_of_lt (lt_succ_of_le fits)]
  have difference : BitVec.ofNat 64 time + ((BitVec.ofNat 64 sec - BitVec.ofNat 64 S) *
      1000000000000000 + BitVec.ofNat 64 nsec * 1000000) =
      BitVec.ofNat 64 time + BitVec.ofNat 64 sec * 1000000000000000 +
        BitVec.ofNat 64 nsec * 1000000 - BitVec.ofNat 64 S * 1000000000000000 := by
    ring
  rw [wraps, deadline, BitVec.toNat_inj, difference, sub_eq_self, seconds_eq_zero_iff]

def Reachable (cost : ℕ) (s : State) : Prop :=
  ∃ events, Guarded (step cost) (fun state event => ∀ s, state = .ok s → Permitted s event)
    (.ok .start) events ∧ run (step cost) (.ok .start) events = .ok s

lemma Reachable.sound {cost : ℕ} {s : State} (reachable : Reachable cost s) : Sound s := by
  obtain ⟨events, permitted, ran⟩ := reachable
  refine run_guarded (I := fun state => ∀ s, state = .ok s → Sound s) ?_ ?_ permitted s ran
  · intro state event sound permitted after stepped
    obtain ⟨before, rfl, handled⟩ := bind_eq_ok.mp stepped
    exact ((sound before rfl).handle (permitted before rfl) handled).1
  · rintro before ⟨⟩
    exact .start

/-- A thread that waits with a relative timeout gives up at the right time exactly when the start of
the emulated clock, in femtoseconds, is zero as a word. -/
theorem wait_gives_up_iff (cost : ℕ) (thread : ThreadId) (args : Args) (env : Env)
    (time osEmuTimeStart sec nsec : ℕ) (s s' : State) (reachable : Reachable cost s)
    (permitted : Permitted s (.futex thread args env time))
    (wait : Command.ofOp args.op = some .wait) (equal : args.val = env.actVal)
    (nobody : s.server.futexes (env.va2pa thread args.uaddr) = [])
    (timeout : env.timeout = some (Timespec.timeoutVal (BitVec.ofNat 64 osEmuTimeStart)
      ⟨BitVec.ofNat 64 sec, BitVec.ofNat 64 nsec⟩))
    (fits : time + sec * 1000000000000000 + nsec * 1000000 ≤ maxTime)
    (called : s.handle cost (.futex thread args env time) = .ok s') :
    GivesUp cost thread (env.va2pa thread args.uaddr)
        (time + sec * 1000000000000000 + nsec * 1000000) s' ↔
      2 ^ 49 ∣ osEmuTimeStart := by
  have waiting := waiting_of_wait reachable.sound permitted wait equal nobody called
  rw [timeout] at waiting
  exact waiting.givesUp_iff.trans (timeoutTime_eq_iff fits osEmuTimeStart)

def oneSecondEnv (osEmuTimeStart : ℕ) : Env :=
  ⟨fun _ address => address, 7, 0, 0,
    some (Timespec.timeoutVal (BitVec.ofNat 64 osEmuTimeStart) ⟨1, 0⟩)⟩

/-- `FUTEX_WAIT` with this timeout. -/
def waitOneSecond (osEmuTimeStart : ℕ) : Event :=
  .futex 1 ⟨0x100, 0, 0, 0, 0, 0⟩ (oneSecondEnv osEmuTimeStart) 1000000000

theorem wait_gives_up_from_zero : ∃ s', State.start.handle 5 (waitOneSecond 0) = .ok s' ∧
      GivesUp 5 1 0x100 1000001000000000 s' :=
  ⟨_, rfl, (wait_gives_up_iff 5 1 ⟨0x100, 0, 0, 0, 0, 0⟩ (oneSecondEnv 0) 1000000000 0 1 0 .start _
    ⟨[], trivial, rfl⟩ ⟨rfl, by decide⟩ rfl rfl rfl rfl (by decide) rfl).mpr (by decide)⟩

/-- With the clock of the base configuration the thread waits on after two seconds. -/
theorem wait_outlasts_timeout : (run (step 5) (.ok .start)
      [waitOneSecond 1337000000, .periodic 2000000000000000 [0x100]]).toOption.map
        (fun s => s.phase 1) = some .blocked := by
  decide +kernel

/-! ## The next timeout -/

/-- `SimFutex::getNextTimeout`, which is also the loop over the sleeping threads. -/
def lastTimeout (waiting : List Waiter) : ℕ :=
  waiting.foldl (fun next waiter => if waiter.timeout < maxTime then waiter.timeout else next)
    maxTime

variable (s : Server)

/-- `SyscallServer::getNextTimeout`. -/
def Server.getNextTimeout : ℕ :=
  s.known.foldl (fun next address =>
    if lastTimeout (s.futexes address) < next then lastTimeout (s.futexes address) else next)
    (lastTimeout s.sleeping)

def Server.places : List Place := .sleeping :: s.known.map .futex

/-- The timeouts of those that have one, in the order of the queue. -/
def Server.timeouts (place : Place) : List ℕ :=
  ((s.waiters place).map (·.timeout)).filter (· < maxTime)

lemma lastTimeout_eq (place : Place) :
    lastTimeout (s.waiters place) = (s.timeouts place).getLast?.getD maxTime := by
  rw [Server.timeouts]
  generalize s.waiters place = waiting
  induction waiting using reverseRecOn with
  | nil => rfl
  | append_singleton waiting w ih =>
    rw [lastTimeout, foldl_append, map_append, filter_append]
    by_cases timed : w.timeout < maxTime
    · simp [timed]
    · simpa [timed, lastTimeout] using ih

lemma lastTimeout_le (place : Place) : lastTimeout (s.waiters place) ≤ maxTime := by
  rw [lastTimeout_eq]
  cases last : (s.timeouts place).getLast? with
  | none => exact le_rfl
  | some t =>
    have timed := of_mem_filter (mem_of_getLast? last)
    exact (of_decide_eq_true timed).le

lemma foldl_least {α : Type*} (f : α → ℕ) (next : ℕ) (l : List α) :
    IsLeast {t | t = next ∨ ∃ a ∈ l, f a = t}
      (l.foldl (fun next a => if f a < next then f a else next) next) := by
  have smallest : (next :: l.map f).min? = some ((l.map f).foldl min next) := min?_cons'
  have same : (fun next a => if f a < next then f a else next) = fun next a => min next (f a) := by
    funext next a
    split <;> omega
  rw [same, ← foldl_map]
  simpa [IsLeast, lowerBounds] using min?_eq_some_iff.mp smallest

lemma getNextTimeout_least :
    IsLeast {t | ∃ place ∈ s.places, lastTimeout (s.waiters place) = t} s.getNextTimeout := by
  have same : {t | ∃ place ∈ s.places, lastTimeout (s.waiters place) = t} =
      {t | t = lastTimeout s.sleeping ∨ ∃ a ∈ s.known, lastTimeout (s.futexes a) = t} := by
    ext t
    simp [Server.places, Server.waiters, eq_comm]
  rw [same]
  exact foldl_least ..

/-- The result is the smallest timeout exactly when no timeout is below the last ones of all
queues. -/
theorem getNextTimeout_least_iff :
    IsLeast (insert maxTime {t | ∃ place ∈ s.places, t ∈ s.timeouts place}) s.getNextTimeout ↔
      ∀ place ∈ s.places, ∀ t ∈ s.timeouts place,
        ∃ place' ∈ s.places, ∃ last ∈ (s.timeouts place').getLast?, last ≤ t := by
  obtain ⟨⟨place, mem, same⟩, least⟩ := getNextTimeout_least s
  have bounded := lastTimeout_le s place
  rw [same] at bounded
  rw [lastTimeout_eq] at same
  constructor
  · rintro ⟨-, smallest⟩ other there t waits
    have below := smallest (.inr ⟨other, there, waits⟩)
    have timed : t < maxTime := by simpa using of_mem_filter waits
    cases last : (s.timeouts place).getLast? with
    | none =>
      rw [last, Option.getD_none] at same
      omega
    | some t' =>
      rw [last, Option.getD_some] at same
      exact ⟨place, mem, t', last, same ▸ below⟩
  · intro lasts
    refine ⟨?_, ?_⟩
    · cases last : (s.timeouts place).getLast? with
      | none =>
        rw [last] at same
        exact .inl same.symm
      | some t =>
        rw [last] at same
        exact .inr ⟨place, mem, same ▸ mem_of_getLast? last⟩
    · rintro t (rfl | ⟨other, there, waits⟩)
      · exact bounded
      · obtain ⟨place', there', last, isLast, below⟩ := lasts other there t waits
        refine (least ⟨place', there', ?_⟩).trans below
        rw [lastTimeout_eq, isLast, Option.getD_some]

/-- Of two threads that sleep, the first is to be woken up earlier. -/
theorem twoSleepers_next :
    let s : Server := { Server.start with sleeping := [⟨0, 0, 1⟩, ⟨1, 0, 2⟩] }
    s.getNextTimeout = 2 ∧ s.timeouts .sleeping = [1, 2] ∧
      ¬ IsLeast (insert maxTime {t | ∃ place ∈ s.places, t ∈ s.timeouts place})
        s.getNextTimeout := by
  refine ⟨by decide, by decide, fun least => ?_⟩
  have first := least.2 (.inr ⟨.sleeping, mem_cons_self, mem_cons_self⟩)
  exact absurd first (by decide)

end Sniper.System.Futex
