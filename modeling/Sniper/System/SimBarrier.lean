import Mathlib.Algebra.Order.Ring.Nat
import Sniper.Lib.Fallible
import Sniper.Lib.Places
import Sniper.Lib.Runs
import Sniper.System.Threads

/-!
# Barriers of the application

A `SimBarrier` is made for a number of threads and used over and over. The queue holds those
who came since the last time it opened, so where a call stands among all calls is enough to say
what it does. The barriers of one `SyncServer` share the threads, and a thread that stalls waits
at one of them.
-/

namespace Sniper.System.SyncBarrier

open Fallible Places List Function Threads

/-- A `carbon_barrier_t`, the index of a barrier. -/
abbrev BarrierId := ℕ

structure SimBarrier where
  count : BitVec 32
  waiting : List ThreadId
  /-- Everybody who called `wait`, in their order. -/
  callers : List ThreadId
  deriving DecidableEq, Repr

inductive Fault where
  /-- There is no barrier of this index. -/
  | outOfBounds
  deriving DecidableEq, Repr

structure Server where
  barriers : List SimBarrier
  threads : Threads

namespace Server

def start : Server := ⟨[], .start⟩

def releaseLoop (thread : ThreadId) (time : ℕ) : List ThreadId → Threads → Threads
  | [], threads => threads
  | waiter :: waiting, threads =>
    releaseLoop thread time waiting (threads.resumeThread waiter (some thread) time false)

/-- `SimBarrier::wait`: the time when the thread goes on, unless it stalls. The size of the queue
is compared with a difference of 32 bits. -/
def wait (thread : ThreadId) (time : ℕ) (barrier : SimBarrier) (threads : Threads) :
    (SimBarrier × Threads) × Option ℕ :=
  let callers := barrier.callers ++ [thread]
  if barrier.waiting.length = (barrier.count - 1).toNat then
    ((⟨barrier.count, [], callers⟩, releaseLoop thread time barrier.waiting threads), some time)
  else
    ((⟨barrier.count, barrier.waiting ++ [thread], callers⟩,
      threads.stallThread thread .barrier), none)

/-- `barrierInit`, with the index of the new barrier. -/
def barrierInit (count : BitVec 32) (s : Server) : Server × BarrierId :=
  ({ s with barriers := s.barriers ++ [⟨count, [], []⟩] }, s.barriers.length)

def barrierWait (thread : ThreadId) (id : BarrierId) (time : ℕ) (s : Server) :
    Except Fault (Server × Option ℕ) :=
  match s.barriers[id]? with
  | none => .error .outOfBounds
  | some barrier =>
    let waited := wait thread time barrier s.threads
    .ok (⟨s.barriers.set id waited.1.1, waited.1.2⟩, waited.2)

end Server

/-! ## Calls -/

inductive Call where
  | barrierInit (count : BitVec 32)
  | barrierWait (thread : ThreadId) (id : BarrierId) (time : ℕ)

def Server.handle (s : Server) : Call → Except Fault Server
  | .barrierInit count => .ok (s.barrierInit count).1
  | .barrierWait thread id time => (s.barrierWait thread id time).map Prod.fst

def step (s : Except Fault Server) (call : Call) : Except Fault Server :=
  s.bind fun s => s.handle call

def Permitted (s : Except Fault Server) : Call → Prop
  | .barrierInit _ => True
  | .barrierWait thread _ _ => ∀ s', s = .ok s' → ¬ s'.threads.Stalled thread

/-! ## Groups -/

section Groups

variable {α : Type*} {n : ℕ} {callers : List α}

/-- When the callers are counted off in groups of `n`, those of the last group, which is not
full. -/
def group (n : ℕ) (callers : List α) : List α := callers.drop (callers.length / n * n)

lemma length_group : (group n callers).length = callers.length % n := by
  rw [group, length_drop, Nat.mod_eq_sub_div_mul]

lemma group_of_boundary (boundary : callers.length % n = 0) : group n callers = [] :=
  eq_nil_of_length_eq_zero (length_group.trans boundary)

lemma group_append_early (thread : α) (early : callers.length % n + 1 < n) :
    group n (callers ++ [thread]) = group n callers ++ [thread] := by
  have same : (callers.length + 1) / n = callers.length / n := by
    have positive : 0 < n := by omega
    rw [Nat.div_eq_iff positive]
    have split := Nat.div_add_mod callers.length n
    rw [Nat.mul_comm] at split
    omega
  rw [group, group, length_append, length_singleton, same,
    drop_append_of_le_length (Nat.div_mul_le_self _ _)]

lemma group_append_last (thread : α) (last : callers.length % n + 1 = n) :
    group n (callers ++ [thread]) = [] := by
  apply group_of_boundary
  have split := Nat.div_add_mod callers.length n
  have full : callers.length + 1 = n * (callers.length / n + 1) := by
    rw [Nat.mul_add, Nat.mul_one]
    omega
  rw [length_append, length_singleton, full, Nat.mul_mod_right]

end Groups

/-! ## One call -/

section Calls

variable {thread other : ThreadId} {time : ℕ} {waiting : List ThreadId} {threads : Threads}

open Server

lemma releaseLoop_resumed : (releaseLoop thread time waiting threads).resumed =
    threads.resumed ++ waiting.map (⟨·, some thread, time, false⟩) := by
  induction waiting generalizing threads with
  | nil => exact (append_nil _).symm
  | cons waiter waiting ih =>
    rw [releaseLoop, ih, resumeThread, map_cons, append_assoc]
    rfl

lemma stalled_releaseLoop : (releaseLoop thread time waiting threads).Stalled other ↔
    threads.Stalled other ∧ other ∉ waiting := by
  induction waiting generalizing threads with
  | nil => simp [releaseLoop]
  | cons waiter waiting ih =>
    rw [releaseLoop, ih, stalled_resumeThread, mem_cons, not_or, and_assoc]

lemma releaseLoop_reason :
    (releaseLoop thread time waiting threads).stalledReason = threads.stalledReason := by
  induction waiting generalizing threads with
  | nil => rfl
  | cons waiter waiting ih => exact ih

variable {barrier : SimBarrier}

lemma toNat_count_sub (positive : 1 ≤ barrier.count.toNat) :
    (barrier.count - 1).toNat = barrier.count.toNat - 1 := by
  have small := barrier.count.isLt
  rw [BitVec.toNat_sub]
  simp
  omega

def Counted (barrier : SimBarrier) : Prop :=
  1 ≤ barrier.count.toNat → barrier.waiting = group barrier.count.toNat barrier.callers

lemma Counted.wait_early (counted : Counted barrier)
    (early : barrier.callers.length % barrier.count.toNat + 1 < barrier.count.toNat) :
    wait thread time barrier threads =
      ((⟨barrier.count, barrier.waiting ++ [thread], barrier.callers ++ [thread]⟩,
        threads.stallThread thread .barrier), none) := by
  have positive : 1 ≤ barrier.count.toNat := by omega
  have size := congrArg length (counted positive)
  rw [length_group] at size
  rw [wait, if_neg]
  rw [size, toNat_count_sub positive]
  omega

lemma Counted.wait_last (counted : Counted barrier)
    (last : barrier.callers.length % barrier.count.toNat + 1 = barrier.count.toNat) :
    wait thread time barrier threads = ((⟨barrier.count, [], barrier.callers ++ [thread]⟩,
        releaseLoop thread time barrier.waiting threads), some time) := by
  have positive : 1 ≤ barrier.count.toNat := by omega
  have size := congrArg length (counted positive)
  rw [length_group] at size
  rw [wait, if_pos]
  rw [size, toNat_count_sub positive]
  omega

lemma Counted.wait (counted : Counted barrier) :
    Counted (Server.wait thread time barrier threads).1.1 := by
  by_cases positive : 1 ≤ barrier.count.toNat
  · have below := Nat.mod_lt barrier.callers.length positive
    rcases Nat.lt_or_eq_of_le (Nat.succ_le_of_lt below) with early | last
    · rw [counted.wait_early early]
      intro _
      rw [counted positive]
      exact (group_append_early thread early).symm
    · rw [counted.wait_last last]
      intro _
      exact (group_append_last thread last).symm
  · intro positive'
    rw [Server.wait] at positive'
    split at positive'
    · exact absurd positive' positive
    · exact absurd positive' positive

end Calls

/-! ## Runs -/

def Server.queue (s : Server) (id : BarrierId) : List ThreadId :=
  (s.barriers[id]?).elim [] SimBarrier.waiting

structure Orderly (s : Server) : Prop where
  counted : ∀ barrier ∈ s.barriers, Counted barrier
  exclusive : Exclusive s.queue
  stalled_iff : ∀ thread, s.threads.Stalled thread ↔ Queued s.queue thread
  reason : ∀ thread, s.threads.Stalled thread → s.threads.stalledReason thread = .barrier

lemma Orderly.start : Orderly .start where
  counted barrier mem := by
    cases mem
  exclusive := .of_nil fun _ => rfl
  stalled_iff thread := by
    constructor
    · rintro ⟨⟩
    · rintro ⟨id, ⟨⟩⟩
  reason := by
    rintro thread ⟨⟩

variable {s : Server} {id : BarrierId} {barrier : SimBarrier}

lemma queue_set (there : s.barriers[id]? = some barrier) (barrier' : SimBarrier)
    (threads : Threads) : (⟨s.barriers.set id barrier', threads⟩ : Server).queue =
      update s.queue id barrier'.waiting := by
  have inside := (List.getElem?_eq_some_iff.mp there).1
  funext other
  by_cases same : other = id
  · rw [same, update_self, Server.queue, getElem?_set_self inside]
    rfl
  · rw [update_of_ne same, Server.queue, getElem?_set_ne (Ne.symm same)]
    rfl

lemma queue_eq (there : s.barriers[id]? = some barrier) : s.queue id = barrier.waiting := by
  rw [Server.queue, there]
  rfl

lemma queue_barrierInit (count : BitVec 32) : (s.barrierInit count).1.queue = s.queue := by
  funext other
  rw [Server.queue, Server.queue, Server.barrierInit, getElem?_append]
  split
  · rfl
  · rename_i outside
    rw [getElem?_eq_none (Nat.le_of_not_lt outside)]
    cases other - s.barriers.length with
    | zero => rfl
    | succ _ => rfl

lemma Orderly.barrierInit (orderly : Orderly s) (count : BitVec 32) :
    Orderly (s.barrierInit count).1 where
  counted barrier mem := by
    rcases mem_append.mp mem with mem | mem
    · exact orderly.counted barrier mem
    · rw [mem_singleton.mp mem]
      exact fun _ => (group_of_boundary (Nat.zero_mod _)).symm
  exclusive := by
    rw [queue_barrierInit]
    exact orderly.exclusive
  stalled_iff := by
    rw [queue_barrierInit]
    exact orderly.stalled_iff
  reason := orderly.reason

lemma barrierWait_eq (there : s.barriers[id]? = some barrier) (thread : ThreadId) (time : ℕ) :
    s.barrierWait thread id time =
      .ok (⟨s.barriers.set id (Server.wait thread time barrier s.threads).1.1,
        (Server.wait thread time barrier s.threads).1.2⟩,
        (Server.wait thread time barrier s.threads).2) := by
  rw [Server.barrierWait, there]

lemma Orderly.wait (orderly : Orderly s) (there : s.barriers[id]? = some barrier)
    {thread : ThreadId} (free : ¬ s.threads.Stalled thread) (time : ℕ) :
    Orderly ⟨s.barriers.set id (Server.wait thread time barrier s.threads).1.1,
      (Server.wait thread time barrier s.threads).1.2⟩ where
  counted barrier' mem := by
    rcases mem_or_eq_of_mem_set mem with mem | rfl
    · exact orderly.counted barrier' mem
    · exact (orderly.counted barrier (mem_of_getElem? there)).wait
  exclusive := by
    rw [queue_set there, Server.wait]
    split
    · exact orderly.exclusive.clear id
    · rw [← queue_eq there]
      exact orderly.exclusive.push id fun queued => free ((orderly.stalled_iff thread).mpr queued)
  stalled_iff other := by
    rw [queue_set there, Server.wait]
    split
    · rw [orderly.exclusive.queued_clear, ← orderly.stalled_iff, queue_eq there]
      exact stalled_releaseLoop
    · rw [← queue_eq there, queued_push, ← orderly.stalled_iff]
      exact stalled_stallThread .barrier
  reason other := by
    rw [Server.wait]
    split
    · intro stalled
      rw [releaseLoop_reason]
      exact orderly.reason other (stalled_releaseLoop.mp stalled).1
    · intro stalled
      by_cases same : other = thread
      · simp [stallThread, same]
      · have before : s.threads.Stalled other :=
          ((stalled_stallThread .barrier).mp stalled).resolve_right same
        exact (update_of_ne same _ _).trans (orderly.reason other before)

lemma Orderly.handle {s' : Server} {call : Call} (orderly : Orderly s)
    (permitted : Permitted (.ok s) call) (returns : s.handle call = .ok s') : Orderly s' := by
  cases call with
  | barrierInit count =>
    cases returns
    exact orderly.barrierInit count
  | barrierWait thread id time =>
    cases there : s.barriers[id]? with
    | none =>
      rw [Server.handle, Server.barrierWait, there] at returns
      cases returns
    | some barrier =>
      rw [Server.handle, barrierWait_eq there] at returns
      cases returns
      exact orderly.wait there (permitted s rfl) time

/-- The call, at its place in a group of `n`, of a barrier that is made for `n` threads. -/
structure Grouped (s : Server) (id : BarrierId) (barrier : SimBarrier) : Prop where
  /-- The queue is the group so far. -/
  queue : barrier.waiting = group barrier.count.toNat barrier.callers
  boundary : barrier.callers.length % barrier.count.toNat = 0 → barrier.waiting = []
  stalled : ∀ thread ∈ barrier.waiting, s.threads.Stalled thread ∧
    s.threads.stalledReason thread = .barrier
  /-- Before the last one of a group, who calls stalls and nobody is resumed. -/
  early : barrier.callers.length % barrier.count.toNat + 1 < barrier.count.toNat →
    ∀ thread time, ∃ s', s.barrierWait thread id time = .ok (s', none) ∧
      s'.threads.Stalled thread ∧ s'.threads.resumed = s.threads.resumed ∧
      s'.queue id = barrier.waiting ++ [thread]
  /-- The last one of a group resumes the others, in their order, and goes on. -/
  last : barrier.callers.length % barrier.count.toNat + 1 = barrier.count.toNat →
    ∀ thread time, ∃ s', s.barrierWait thread id time = .ok (s', some time) ∧ s'.threads.resumed =
        s.threads.resumed ++ barrier.waiting.map (⟨·, some thread, time, false⟩) ∧
      (∀ other, s'.threads.Stalled other ↔ s.threads.Stalled other ∧ other ∉ barrier.waiting) ∧
      s'.queue id = []

lemma Orderly.grouped (orderly : Orderly s) (there : s.barriers[id]? = some barrier)
    (positive : 1 ≤ barrier.count.toNat) : Grouped s id barrier where
  queue := orderly.counted barrier (mem_of_getElem? there) positive
  boundary := by
    intro boundary
    rw [orderly.counted barrier (mem_of_getElem? there) positive]
    exact group_of_boundary boundary
  stalled thread mem := by
    have stalled : s.threads.Stalled thread :=
      (orderly.stalled_iff thread).mpr ⟨id, (queue_eq there).symm ▸ mem⟩
    exact ⟨stalled, orderly.reason thread stalled⟩
  early := by
    intro early thread time
    have counted := orderly.counted barrier (mem_of_getElem? there)
    rw [barrierWait_eq there, counted.wait_early early]
    refine ⟨_, rfl, (stalled_stallThread .barrier).mpr (.inr rfl), rfl, ?_⟩
    rw [queue_set there, update_self]
  last := by
    intro last thread time
    have counted := orderly.counted barrier (mem_of_getElem? there)
    rw [barrierWait_eq there, counted.wait_last last]
    refine ⟨_, rfl, releaseLoop_resumed, fun _ => stalled_releaseLoop, ?_⟩
    rw [queue_set there, update_self]

/-- In every run of calls of threads that are not stalled, the calls at a barrier form groups of
the size it is made for. -/
theorem barrier_groups (calls : List Call)
    (permitted : Runs.Guarded step Permitted (.ok .start) calls) :
    Runs.Throughout step
      (fun state => ∀ s id barrier, state = .ok s → s.barriers[id]? = some barrier →
        1 ≤ barrier.count.toNat → Grouped s id barrier) (.ok .start) calls := by
  refine Runs.throughout_guarded (I := fun state => ∀ s, state = .ok s → Orderly s)
    ?_ ?_ ?_ permitted
  · intro state call orderly permitted s' returns
    obtain ⟨s, rfl, returns⟩ := bind_eq_ok.mp returns
    exact (orderly s rfl).handle permitted returns
  · intro state orderly s id barrier reached there positive
    exact (orderly s reached).grouped there positive
  · intro s start
    cases start
    exact Orderly.start

def twoOfTwo : List Call :=
  [.barrierInit 2, .barrierWait 0 0 10, .barrierWait 1 0 20, .barrierWait 1 0 30,
    .barrierWait 0 0 40]

theorem barrier_groups_two :
    (Runs.run step (.ok .start) twoOfTwo).toOption.map (fun s => s.threads.resumed) =
      some [⟨0, some 1, 20, false⟩, ⟨1, some 0, 40, false⟩] ∧
    Runs.Throughout step
      (fun state => ∀ s id barrier, state = .ok s → s.barriers[id]? = some barrier →
        1 ≤ barrier.count.toNat → Grouped s id barrier) (.ok .start) twoOfTwo := by
  refine ⟨by decide, barrier_groups twoOfTwo ⟨trivial, ?_, ?_, ?_, ?_, trivial⟩⟩
  · rintro _ ⟨⟩
    decide
  · rintro _ ⟨⟩
    decide
  · rintro _ ⟨⟩
    decide
  · rintro _ ⟨⟩
    decide

end Sniper.System.SyncBarrier
