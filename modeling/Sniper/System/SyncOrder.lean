import Sniper.Lib.Fallible
import Sniper.Lib.Places
import Sniper.Lib.Runs
import Sniper.System.SyncServer

/-!
# Who owns a mutex and who waits

A thread that stalls waits in one queue, of a mutex or of a condition variable. It leaves a
mutex queue as the new owner. From the queue of a condition variable it goes either to the
queue of its mutex or, when nobody owns this, on as the owner. The calls are put together from
three changes, each of which keeps the order: joining a queue, leaving one and a change of
owner.
-/

namespace Sniper.System.Sync

open Fallible Places List Function Threads

inductive Place where
  | mutex (mux : MutexId)
  | cond (cond : CondId)
  deriving DecidableEq

def Server.queue (s : Server) : Place → List ThreadId
  | .mutex mux => (s.mutex mux).waiting
  | .cond cond => (s.conds cond).map CondWaiter.thread

def Waits (s : Server) (thread : ThreadId) (mux : MutexId) : Prop :=
  thread ∈ (s.mutex mux).waiting ∨ ∃ cond, ⟨thread, mux⟩ ∈ s.conds cond

section Updates

variable (s : Server) (mux : MutexId) (mutex : SimMutex) (cond : CondId)
  (waiting : List CondWaiter)

open Server

lemma mutex_setMutex : (s.setMutex mux mutex).mutex = update s.mutex mux mutex := by
  funext other
  by_cases same : other = mux
  · simp [Server.mutex, setMutex, same]
  · simp [Server.mutex, setMutex, same]

lemma queue_setMutex :
    (s.setMutex mux mutex).queue = update s.queue (.mutex mux) mutex.waiting := by
  funext place
  cases place with
  | mutex other =>
    rw [queue, mutex_setMutex]
    by_cases same : other = mux
    · rw [same, update_self, update_self]
    · rw [update_of_ne same, update_of_ne (by simpa using same)]
      rfl
  | cond other => rfl

lemma conds_setCond : (s.setCond cond waiting).conds = update s.conds cond waiting := rfl

lemma queue_setCond : (s.setCond cond waiting).queue =
    update s.queue (.cond cond) (waiting.map CondWaiter.thread) := by
  funext place
  cases place with
  | mutex other => rfl
  | cond other =>
    by_cases same : other = cond
    · simp [queue, conds_setCond, same]
    · simp [queue, conds_setCond, same]

variable {s mux mutex cond waiting} {thread : ThreadId} {other : MutexId}

lemma owner_setWaiting (s : Server) (mux : MutexId) (queue : List ThreadId) (other : MutexId) :
    ((s.setMutex mux { s.mutex mux with waiting := queue }).mutex other).owner =
      (s.mutex other).owner := by
  rw [mutex_setMutex]
  by_cases same : other = mux
  · rw [same, update_self]
  · rw [update_of_ne same]

lemma waits_setMutex (waits : Waits (s.setMutex mux mutex) thread other) :
    Waits s thread other ∨ (other = mux ∧ thread ∈ mutex.waiting) := by
  rcases waits with mem | sleeps
  · rw [mutex_setMutex] at mem
    by_cases same : other = mux
    · rw [same, update_self] at mem
      exact .inr ⟨same, mem⟩
    · rw [update_of_ne same] at mem
      exact .inl (.inl mem)
  · exact .inl (.inr sleeps)

lemma waits_setCond (waits : Waits (s.setCond cond waiting) thread other) :
    Waits s thread other ∨ ⟨thread, other⟩ ∈ waiting := by
  rcases waits with mem | ⟨place, mem⟩
  · exact .inl (.inl mem)
  · rw [conds_setCond] at mem
    by_cases same : place = cond
    · rw [same, update_self] at mem
      exact .inr mem
    · rw [update_of_ne same] at mem
      exact .inl (.inr ⟨place, mem⟩)

end Updates

lemma Waits.queued {s : Server} {thread : ThreadId} {mux : MutexId}
    (waits : Waits s thread mux) : Queued s.queue thread := by
  rcases waits with mem | ⟨cond, mem⟩
  · exact ⟨.mutex mux, mem⟩
  · exact ⟨.cond cond, mem_map_of_mem mem⟩

/-! ## The order -/

structure Orderly (s : Server) : Prop where
  exclusive : Exclusive s.queue
  stalled : ∀ thread, s.threads.Stalled thread ↔ Queued s.queue thread
  /-- A mutex with waiters has an owner. -/
  owned : ∀ mux, (s.mutex mux).waiting ≠ [] → (s.mutex mux).owner ≠ none
  /-- The owner does not wait for what it owns. -/
  apart : ∀ mux thread, (s.mutex mux).owner = some thread → ¬ Waits s thread mux

namespace Orderly

variable {s s' : Server} {mux : MutexId} {place : Place} {thread : ThreadId}

lemma start : Orderly .start where
  exclusive := .of_nil fun place => by cases place <;> rfl
  stalled thread := by
    constructor
    · rintro ⟨⟩
    · rintro ⟨_ | _, ⟨⟩⟩
  owned := fun mux some => absurd rfl some
  apart := by rintro mux thread ⟨⟩

lemma not_waits (orderly : Orderly s) (running : ¬ s.threads.Stalled thread) :
    ¬ Waits s thread mux :=
  fun waits => running ((orderly.stalled thread).mpr waits.queued)

lemma leave (orderly : Orderly s) (place : Place) {rest : List ThreadId}
    (leaves : s.queue place = thread :: rest) (queues : s'.queue = update s.queue place rest)
    (resumed : ∀ other, s'.threads.Stalled other ↔ s.threads.Stalled other ∧ other ≠ thread)
    (owners : ∀ mux, (s'.mutex mux).owner = (s.mutex mux).owner ∨
      (s'.mutex mux).owner = some thread)
    (waits : ∀ other mux, Waits s' other mux → Waits s other mux) : Orderly s' := by
  have stalled : ∀ other, s'.threads.Stalled other ↔ Queued s'.queue other := by
    intro other
    rw [resumed, orderly.stalled, queues, orderly.exclusive.queued_remove (.of_eq leaves)]
  refine ⟨?_, stalled, ?_, ?_⟩
  · rw [queues]
    exact orderly.exclusive.remove (.of_eq leaves)
  · intro mux some
    rcases owners mux with same | taken
    · obtain ⟨first, mem⟩ := exists_mem_of_ne_nil _ some
      change first ∈ s'.queue (.mutex mux) at mem
      rw [queues] at mem
      have before : first ∈ s.queue (.mutex mux) :=
        ((orderly.exclusive.mem_remove (.of_eq leaves)).mp mem).1
      rw [same]
      exact orderly.owned mux (ne_nil_of_mem before)
    · rw [taken]
      simp
  · intro mux other owner there
    rcases owners mux with same | taken
    · rw [same] at owner
      exact orderly.apart mux other owner (waits other mux there)
    · obtain rfl := Option.some.inj (owner.symm.trans taken)
      exact ((resumed other).mp ((stalled other).mpr there.queued)).2 rfl

lemma join (orderly : Orderly s) (running : ¬ s.threads.Stalled thread)
    (queues : s'.queue = update s.queue place (s.queue place ++ [thread]))
    (stalls : ∀ other, s'.threads.Stalled other ↔ s.threads.Stalled other ∨ other = thread)
    (owners : ∀ mux, (s'.mutex mux).owner = (s.mutex mux).owner)
    (locked : ∀ mux, place = .mutex mux → (s.mutex mux).owner ≠ none)
    (waits : ∀ other mux, Waits s' other mux →
      Waits s other mux ∨ (other = thread ∧ (s.mutex mux).owner ≠ some thread)) : Orderly s' where
  exclusive := by
    rw [queues]
    exact orderly.exclusive.push place fun queued => running ((orderly.stalled thread).mpr queued)
  stalled other := by
    rw [stalls, orderly.stalled, queues, queued_push]
  owned mux some := by
    obtain ⟨first, mem⟩ := exists_mem_of_ne_nil _ some
    change first ∈ s'.queue (.mutex mux) at mem
    rw [queues] at mem
    rw [owners]
    rcases mem_push.mp mem with before | ⟨here, -⟩
    · exact orderly.owned mux (ne_nil_of_mem before)
    · exact locked mux here.symm
  apart mux other owner there := by
    rw [owners] at owner
    rcases waits other mux there with before | ⟨rfl, different⟩
    · exact orderly.apart mux other owner before
    · exact different owner

lemma setOwner (orderly : Orderly s) (mux : MutexId) (owner : Option ThreadId)
    (locked : (s.mutex mux).waiting ≠ [] → owner ≠ none)
    (outside : ∀ thread, owner = some thread → ¬ Waits s thread mux) :
    Orderly (s.setMutex mux { s.mutex mux with owner := owner }) := by
  have queues : (s.setMutex mux { s.mutex mux with owner := owner }).queue = s.queue := by
    rw [queue_setMutex]
    exact update_eq_self _ _
  have waits : ∀ other k, Waits (s.setMutex mux { s.mutex mux with owner := owner }) other k →
      Waits s other k := by
    rintro other k (mem | sleeps)
    · change other ∈ Server.queue _ (.mutex k) at mem
      rw [queues] at mem
      exact .inl mem
    · exact .inr sleeps
  refine ⟨?_, ?_, ?_, ?_⟩
  · rw [queues]
    exact orderly.exclusive
  · rw [queues]
    exact orderly.stalled
  · intro k
    rw [mutex_setMutex]
    by_cases same : k = mux
    · rw [same, update_self]
      exact locked
    · rw [update_of_ne same]
      exact orderly.owned k
  · intro k other
    rw [mutex_setMutex]
    by_cases same : k = mux
    · rw [same, update_self]
      exact fun owns there => outside other owns (waits other mux there)
    · rw [update_of_ne same]
      exact fun owns there => orderly.apart k other owns (waits other k there)

end Orderly

/-! ## What is resumed -/

structure Wakes (s s' : Server) (woken : List Resume) : Prop where
  log : s'.threads.resumed = s.threads.resumed ++ woken
  once : (woken.map Resume.thread).Nodup
  stalled : ∀ resume ∈ woken, s.threads.Stalled resume.thread
  running : ∀ resume ∈ woken, ¬ s'.threads.Stalled resume.thread
  owner : ∀ resume ∈ woken, ∃ mux, Waits s resume.thread mux ∧
    (s'.mutex mux).owner = some resume.thread

structure Passes (s s' : Server) : Prop where
  owners : ∀ mux thread, (s.mutex mux).owner = some thread → (s'.mutex mux).owner = some thread
  stalled : ∀ thread, s'.threads.Stalled thread → s.threads.Stalled thread
  waits : ∀ thread mux, Waits s' thread mux → Waits s thread mux

section Wakes

variable {s s' s'' : Server} {woken more : List Resume}

lemma Wakes.none (log : s'.threads.resumed = s.threads.resumed) : Wakes s s' [] :=
  ⟨by rw [log, append_nil], nodup_nil, by simp, by simp, by simp⟩

lemma Wakes.one {resume : Resume} {mux : MutexId}
    (log : s'.threads.resumed = s.threads.resumed ++ [resume])
    (stalled : s.threads.Stalled resume.thread) (running : ¬ s'.threads.Stalled resume.thread)
    (waits : Waits s resume.thread mux) (owner : (s'.mutex mux).owner = some resume.thread) :
    Wakes s s' [resume] := by
  refine ⟨log, nodup_singleton _, ?_, ?_, ?_⟩
  · simpa using stalled
  · simpa using running
  · simpa using ⟨mux, waits, owner⟩

lemma Passes.refl (s : Server) : Passes s s := ⟨fun _ _ => id, fun _ => id, fun _ _ => id⟩

lemma Passes.trans (first : Passes s s') (second : Passes s' s'') : Passes s s'' where
  owners := fun mux thread owns => second.owners mux thread (first.owners mux thread owns)
  stalled := fun thread stalled => first.stalled thread (second.stalled thread stalled)
  waits := fun thread mux waits => first.waits thread mux (second.waits thread mux waits)

lemma Wakes.trans (first : Wakes s s' woken) (passed : Passes s s') (second : Wakes s' s'' more)
    (passes : Passes s' s'') : Wakes s s'' (woken ++ more) where
  log := by rw [second.log, first.log, append_assoc]
  once := by
    rw [map_append]
    refine first.once.append second.once ?_
    intro thread here there
    obtain ⟨resume, mem, rfl⟩ := mem_map.mp here
    obtain ⟨other, mem', same⟩ := mem_map.mp there
    have stalled := second.stalled other mem'
    rw [same] at stalled
    exact first.running resume mem stalled
  stalled resume mem := by
    rcases mem_append.mp mem with mem | mem
    · exact first.stalled resume mem
    · exact passed.stalled _ (second.stalled resume mem)
  running resume mem := by
    rcases mem_append.mp mem with mem | mem
    · exact fun stalled => first.running resume mem (passes.stalled _ stalled)
    · exact second.running resume mem
  owner resume mem := by
    rcases mem_append.mp mem with mem | mem
    · obtain ⟨mux, waits, owner⟩ := first.owner resume mem
      exact ⟨mux, waits, passes.owners mux _ owner⟩
    · obtain ⟨mux, waits, owner⟩ := second.owner resume mem
      exact ⟨mux, passed.waits _ mux waits, owner⟩

end Wakes

/-! ## Mutexes -/

section Mutexes

variable {s s' : Server} {mux : MutexId} {thread : ThreadId} {time : ℕ}

lemma Orderly.joinMutex (orderly : Orderly s) (running : ¬ s.threads.Stalled thread)
    (locked : (s.mutex mux).owner ≠ none) (foreign : (s.mutex mux).owner ≠ some thread)
    {threads : Threads}
    (stalls : ∀ other, threads.Stalled other ↔ s.threads.Stalled other ∨ other = thread) :
    Orderly { s.setMutex mux { s.mutex mux with waiting := (s.mutex mux).waiting ++ [thread] } with
      threads := threads } := by
  refine orderly.join running (queue_setMutex s mux _) stalls (owner_setWaiting s mux _) ?_ ?_
  · rintro _ ⟨⟩
    exact locked
  · intro other k waits
    rcases waits_setMutex waits with before | ⟨rfl, mem⟩
    · exact .inl before
    rcases mem_append.mp mem with mem | mem
    · exact .inl (.inl mem)
    · exact .inr ⟨mem_singleton.mp mem, foreign⟩

lemma Orderly.lock (orderly : Orderly s) (running : ¬ s.threads.Stalled thread)
    (foreign : (s.mutex mux).owner ≠ some thread) (time : ℕ) :
    Orderly (s.lock mux thread time).1 ∧
      (s.lock mux thread time).1.threads.resumed = s.threads.resumed := by
  rw [Server.lock]
  split
  · refine ⟨orderly.setOwner mux (some thread) (by simp) ?_, rfl⟩
    rintro _ ⟨⟩
    exact orderly.not_waits running
  · next locked =>
    exact ⟨orderly.joinMutex running locked foreign fun _ => stalled_stallThread .mutex, rfl⟩

lemma Orderly.unlock (orderly : Orderly s) (owner : (s.mutex mux).owner = some thread)
    (time : ℕ) : ∃ result woken, s.unlock mux thread time = .ok result ∧ Orderly result.1 ∧
      Wakes s result.1 woken ∧ (result.1.mutex mux).owner ≠ some thread ∧
      ∀ other, result.1.threads.Stalled other → s.threads.Stalled other := by
  rw [Server.unlock, if_neg (by simp [owner])]
  cases queue : (s.mutex mux).waiting with
  | nil =>
    refine ⟨_, [], rfl, ?_, .none rfl, ?_, fun _ => id⟩
    · rw [← queue]
      refine orderly.setOwner mux none (fun some => absurd queue some) ?_
      rintro _ ⟨⟩
    · simp [mutex_setMutex]
  | cons waiter rest =>
    have waits : Waits s waiter mux := Or.inl (queue ▸ mem_cons_self)
    have resumed : ∀ other, (s.threads.resumeThread waiter (some thread) time false).Stalled other ↔
        s.threads.Stalled other ∧ other ≠ waiter := fun _ => stalled_resumeThread _ _ _
    have given : ((s.setMutex mux ⟨some waiter, rest⟩).mutex mux).owner = some waiter := by
      rw [mutex_setMutex, update_self]
    refine ⟨_, [⟨waiter, thread, time, false⟩], rfl, ?_, ?_, ?_, ?_⟩
    · refine orderly.leave (.mutex mux) queue (queue_setMutex s mux _) resumed ?_ ?_
      · intro k
        by_cases same : k = mux
        · rw [same]
          exact .inr given
        · refine .inl ?_
          show ((s.setMutex mux ⟨some waiter, rest⟩).mutex k).owner = _
          rw [mutex_setMutex, update_of_ne same]
      · intro other k there
        rcases waits_setMutex there with before | ⟨rfl, mem⟩
        · exact before
        · exact .inl (queue ▸ mem_cons_of_mem waiter mem)
    · exact .one rfl ((orderly.stalled waiter).mpr waits.queued)
        (fun still => ((resumed waiter).mp still).2 rfl) waits given
    · intro same
      obtain rfl := Option.some.inj (given.symm.trans same)
      exact orderly.apart mux waiter owner waits
    · exact fun other still => ((resumed other).mp still).1

end Mutexes

/-! ## Condition variables -/

section Conditions

variable {s : Server} {mux : MutexId} {cond : CondId} {thread : ThreadId} {woken : CondWaiter}
  {waiting : List CondWaiter}

lemma Orderly.sleep (orderly : Orderly s) (running : ¬ s.threads.Stalled thread)
    (foreign : (s.mutex mux).owner ≠ some thread) :
    Orderly ((s.setCond cond (s.conds cond ++ [⟨thread, mux⟩])).stall thread .cond) := by
  have queues : (s.setCond cond (s.conds cond ++ [⟨thread, mux⟩])).queue =
      update s.queue (.cond cond) (s.queue (.cond cond) ++ [thread]) := by
    rw [queue_setCond, map_append]
    rfl
  refine orderly.join running queues (fun _ => stalled_stallThread .cond) (fun _ => rfl) ?_ ?_
  · rintro _ ⟨⟩
  · intro other k waits
    have there : Waits (s.setCond cond (s.conds cond ++ [⟨thread, mux⟩])) other k := waits
    rcases waits_setCond there with before | mem
    · exact .inl before
    rcases mem_append.mp mem with mem | mem
    · exact .inl (.inr ⟨cond, mem⟩)
    · obtain ⟨rfl, rfl⟩ := CondWaiter.mk.inj (mem_singleton.mp mem)
      exact .inr ⟨rfl, foreign⟩

lemma waits_pop (queue : s.conds cond = woken :: waiting) {other : ThreadId} {k : MutexId}
    (waits : Waits (s.setCond cond waiting) other k) : Waits s other k := by
  rcases waits_setCond waits with before | mem
  · exact before
  · exact .inr ⟨cond, queue ▸ mem_cons_of_mem woken mem⟩

/-- A woken thread gets the mutex or goes on to wait for it. -/
lemma Orderly.wakeOne (orderly : Orderly s) (queue : s.conds cond = woken :: waiting)
    (thread : ThreadId) (time : ℕ) :
    Orderly (s.wakeOne cond woken waiting thread time).1 ∧
      Passes s (s.wakeOne cond woken waiting thread time).1 ∧
      ∃ resumes, Wakes s (s.wakeOne cond woken waiting thread time).1 resumes := by
  have leaves : s.queue (.cond cond) = woken.thread :: waiting.map CondWaiter.thread := by
    rw [Server.queue, queue, map_cons]
  have waits : Waits s woken.thread woken.mutex := Or.inr ⟨cond, queue ▸ mem_cons_self⟩
  have stalled := (orderly.stalled woken.thread).mpr waits.queued
  have resumed : ∀ other,
      (s.threads.resumeThread woken.thread (some thread) time false).Stalled other ↔
        s.threads.Stalled other ∧ other ≠ woken.thread :=
    fun _ => stalled_resumeThread _ _ _
  have running : ¬ (s.threads.resumeThread woken.thread (some thread) time false).Stalled
      woken.thread := fun still => ((resumed woken.thread).mp still).2 rfl
  have left : Orderly ((s.setCond cond waiting).resume woken.thread thread time) :=
    orderly.leave (.cond cond) leaves (queue_setCond s cond waiting) resumed
      (fun _ => Or.inl rfl) fun _ _ => waits_pop queue
  rw [Server.wakeOne, Server.lockAsync]
  split
  · next free =>
    have granted := left.setOwner woken.mutex (some woken.thread) (by simp) (by
      rintro _ ⟨⟩
      exact left.not_waits running)
    refine ⟨granted, ⟨?_, fun other still => ((resumed other).mp still).1, ?_⟩,
      [⟨woken.thread, thread, time, false⟩], .one rfl stalled running waits ?_⟩
    · intro k other owns
      have different : k ≠ woken.mutex := by
        rintro rfl
        exact absurd (owns.symm.trans free) (by simp)
      change ((Server.setMutex _ _ _).mutex k).owner = _
      rw [mutex_setMutex, update_of_ne different]
      exact owns
    · intro other k there
      rcases waits_setMutex there with before | ⟨rfl, mem⟩
      · exact waits_pop queue before
      · exact .inl mem
    · change ((Server.setMutex _ _ _).mutex _).owner = _
      rw [mutex_setMutex, update_self]
  · next locked =>
    have still : ∀ other, s.threads.Stalled other ↔
        (s.threads.resumeThread woken.thread (some thread) time false).Stalled other ∨
          other = woken.thread := by
      intro other
      rw [resumed]
      by_cases same : other = woken.thread
      · simp [same, stalled]
      · simp [same]
    refine ⟨left.joinMutex running locked (fun owns => orderly.apart _ _ owns waits) still,
      ⟨?_, fun _ => id, ?_⟩, [], .none rfl⟩
    · intro k other owns
      rw [owner_setWaiting]
      exact owns
    · intro other k there
      rcases waits_setMutex there with before | ⟨rfl, mem⟩
      · exact waits_pop queue before
      rcases mem_append.mp mem with mem | mem
      · exact .inl mem
      · rw [mem_singleton.mp mem]
        exact waits

lemma Orderly.broadcastLoop (orderly : Orderly s) (queue : s.conds cond = waiting)
    (thread : ThreadId) (time : ℕ) :
    Orderly (s.broadcastLoop cond thread time waiting) ∧
      Passes s (s.broadcastLoop cond thread time waiting) ∧
      ∃ resumes, Wakes s (s.broadcastLoop cond thread time waiting) resumes := by
  induction waiting generalizing s with
  | nil => exact ⟨orderly, .refl s, [], .none rfl⟩
  | cons woken waiting ih =>
    obtain ⟨orderly', passed, first, woke⟩ := orderly.wakeOne queue thread time
    have rest : (s.wakeOne cond woken waiting thread time).1.conds cond = waiting := by
      rw [Server.wakeOne, Server.lockAsync]
      split <;> exact update_self cond waiting s.conds
    obtain ⟨kept, passes, more, wakes⟩ := ih orderly' rest
    exact ⟨kept, passed.trans passes, first ++ more, woke.trans passed wakes passes⟩

end Conditions

/-! ## Calls -/

/-- Who may call: a thread that runs, locks what it does not own, and unlocks or waits with
what it owns. -/
def Permitted (s : Server) : Call → Prop
  | .mutexLock thread mux _ _ => ¬ s.threads.Stalled thread ∧ (s.mutex mux).owner ≠ some thread
  | .mutexUnlock thread mux _ => ¬ s.threads.Stalled thread ∧ (s.mutex mux).owner = some thread
  | .condWait thread _ mux _ => ¬ s.threads.Stalled thread ∧ (s.mutex mux).owner = some thread
  | .condSignal thread _ _ => ¬ s.threads.Stalled thread
  | .condBroadcast thread _ _ => ¬ s.threads.Stalled thread

section Calls

variable {s : Server} {mux : MutexId} {thread : ThreadId}

lemma getMutex_of_owner (owner : (s.mutex mux).owner = some thread) (canCreate : Bool) :
    s.getMutex mux canCreate = .ok s := by
  rw [Server.getMutex, if_pos]
  cases seen : s.mutexes mux with
  | none =>
    rw [Server.mutex, seen] at owner
    cases owner
  | some mutex => rfl

lemma getMutex_create (s : Server) (mux : MutexId) :
    ∃ s', s.getMutex mux true = .ok s' ∧ s'.mutex = s.mutex ∧ s'.conds = s.conds ∧
      s'.threads = s.threads := by
  rw [Server.getMutex]
  by_cases seen : (s.mutexes mux).isSome
  · exact ⟨s, if_pos seen, rfl, rfl, rfl⟩
  · have new : s.mutex mux = .new := by
      rw [Server.mutex, Option.not_isSome_iff_eq_none.mp seen]
      rfl
    refine ⟨s.setMutex mux .new, (if_neg seen).trans (if_pos rfl), ?_, rfl, rfl⟩
    rw [mutex_setMutex, ← new]
    exact update_eq_self mux s.mutex

section

variable (orderly : Orderly s)

include orderly

lemma Orderly.congr {s' : Server} (mutexes : s'.mutex = s.mutex)
    (conds : s'.conds = s.conds) (threads : s'.threads = s.threads) : Orderly s' := by
  have queue : s'.queue = s.queue := by
    funext place
    cases place with
    | mutex mux => rw [Server.queue, mutexes]; rfl
    | cond cond => rw [Server.queue, conds]; rfl
  refine ⟨?_, ?_, ?_, ?_⟩
  · rw [queue]
    exact orderly.exclusive
  · rw [queue, threads]
    exact orderly.stalled
  · rw [mutexes]
    exact orderly.owned
  · intro mux thread owner waits
    rw [mutexes] at owner
    rw [Waits, mutexes, conds] at waits
    exact orderly.apart mux thread owner waits

lemma Orderly.getMutex (mux : MutexId) :
    ∃ s', s.getMutex mux true = .ok s' ∧ Orderly s' ∧ s'.mutex = s.mutex ∧
      s'.threads = s.threads := by
  obtain ⟨s', got, mutexes, conds, threads⟩ := getMutex_create s mux
  exact ⟨s', got, orderly.congr mutexes conds threads, mutexes, threads⟩

lemma Orderly.mutexLock (cost : ℕ) (running : ¬ s.threads.Stalled thread)
    (foreign : (s.mutex mux).owner ≠ some thread) (tryLock : Bool) (time : ℕ) :
    ∃ result, s.mutexLock cost thread mux tryLock time = .ok result ∧ Orderly result.1 ∧
      Wakes s result.1 [] := by
  obtain ⟨found, got, orderly, mutexes, threads⟩ := orderly.getMutex mux
  rw [← threads] at running
  rw [← mutexes] at foreign
  rw [Server.mutexLock, got]
  refine ⟨_, rfl, ?_⟩
  dsimp only
  split
  · exact ⟨orderly, .none (by rw [threads])⟩
  · obtain ⟨kept, log⟩ := orderly.lock running foreign time
    exact ⟨kept, .none (by rw [log, threads])⟩

lemma Orderly.mutexUnlock (cost : ℕ) (owner : (s.mutex mux).owner = some thread) (time : ℕ) :
    ∃ result woken, s.mutexUnlock cost thread mux time = .ok result ∧ Orderly result.1 ∧
      Wakes s result.1 woken := by
  obtain ⟨result, woken, unlocked, kept, wakes, -⟩ := orderly.unlock owner (time + cost)
  rw [Server.mutexUnlock, getMutex_of_owner owner]
  refine ⟨(result.1, time + if result.2 = none then 0 else cost), woken, ?_, kept, wakes⟩
  show (s.unlock mux thread (time + cost)).map _ = _
  rw [unlocked]
  rfl

lemma Orderly.condWait (running : ¬ s.threads.Stalled thread)
    (owner : (s.mutex mux).owner = some thread) (cond : CondId) (time : ℕ) :
    ∃ s' woken, s.condWait thread cond mux time = .ok s' ∧ Orderly s' ∧ Wakes s s' woken := by
  obtain ⟨result, woken, unlocked, kept, wakes, foreign, stalled⟩ := orderly.unlock owner time
  have awake : ¬ result.1.threads.Stalled thread := fun still => running (stalled thread still)
  rw [Server.condWait, getMutex_of_owner owner]
  refine ⟨(result.1.setCond cond (result.1.conds cond ++ [⟨thread, mux⟩])).stall thread .cond,
    woken, ?_, kept.sleep awake foreign, ?_⟩
  · show (s.unlock mux thread time).map _ = _
    rw [unlocked]
    rfl
  · refine ⟨wakes.log, wakes.once, wakes.stalled, ?_, wakes.owner⟩
    intro resume mem still
    rcases (stalled_stallThread .cond).mp still with still | same
    · exact wakes.running resume mem still
    · exact running (same ▸ wakes.stalled resume mem)

lemma Orderly.condSignal (thread : ThreadId) (cond : CondId) (time : ℕ) :
    Orderly (s.condSignal thread cond time) ∧
      ∃ woken, Wakes s (s.condSignal thread cond time) woken := by
  rw [Server.condSignal, Server.signal]
  split
  · exact ⟨orderly, [], .none rfl⟩
  · next queue =>
    obtain ⟨kept, -, wakes⟩ := orderly.wakeOne queue thread time
    exact ⟨kept, wakes⟩

lemma Orderly.handle (cost : ℕ) {call : Call} (permitted : Permitted s call) :
    ∃ s' woken, s.handle cost call = .ok s' ∧ Orderly s' ∧ Wakes s s' woken := by
  cases call with
  | mutexLock thread mux tryLock time =>
    obtain ⟨result, locked, kept, wakes⟩ :=
      orderly.mutexLock cost permitted.1 permitted.2 tryLock time
    refine ⟨result.1, [], ?_, kept, wakes⟩
    rw [Server.handle, locked]
    rfl
  | mutexUnlock thread mux time =>
    obtain ⟨result, woken, unlocked, kept, wakes⟩ := orderly.mutexUnlock cost permitted.2 time
    refine ⟨result.1, woken, ?_, kept, wakes⟩
    rw [Server.handle, unlocked]
    rfl
  | condWait thread cond mux time => exact orderly.condWait permitted.1 permitted.2 cond time
  | condSignal thread cond time =>
    obtain ⟨kept, woken, wakes⟩ := orderly.condSignal thread cond time
    exact ⟨_, woken, rfl, kept, wakes⟩
  | condBroadcast thread cond time =>
    obtain ⟨kept, -, woken, wakes⟩ := orderly.broadcastLoop rfl thread time
    exact ⟨_, woken, rfl, kept, wakes⟩

end

end Calls

/-! ## Runs -/

/-- One owner for each mutex that has waiters, which does not wait for it; one place for each
thread that is stalled; and mutexes that are handed to the threads that waited for them. -/
structure Correct (cost : ℕ) (s : Server) : Prop where
  owned : ∀ mux, (s.mutex mux).waiting ≠ [] → ∃ thread, (s.mutex mux).owner = some thread
  apart : ∀ mux thread, (s.mutex mux).owner = some thread →
    thread ∉ (s.mutex mux).waiting ∧ ∀ cond, ⟨thread, mux⟩ ∉ s.conds cond
  stalled : ∀ thread, s.threads.Stalled thread ↔ ∃! place, thread ∈ s.queue place
  once : ∀ place, (s.queue place).Nodup
  grants : ∀ call s', Permitted s call → s.handle cost call = .ok s' → ∃ woken, Wakes s s' woken

lemma Orderly.correct {s : Server} (orderly : Orderly s) (cost : ℕ) : Correct cost s where
  owned := fun mux some => Option.ne_none_iff_exists'.mp (orderly.owned mux some)
  apart mux thread owner := by
    have outside := orderly.apart mux thread owner
    exact ⟨fun mem => outside (.inl mem), fun cond mem => outside (.inr ⟨cond, mem⟩)⟩
  stalled := fun thread => (orderly.stalled thread).trans orderly.exclusive.queued_iff
  once := orderly.exclusive.nodup
  grants call s' permitted ran := by
    obtain ⟨after, woken, handled, -, wakes⟩ := orderly.handle cost permitted
    cases handled.symm.trans ran
    exact ⟨woken, wakes⟩

/-- Every run of permitted calls is correct throughout, and trips no assertion. -/
theorem sync_correct (cost : ℕ) (calls : List Call)
    (permitted : Runs.Guarded (step cost) (fun state call => ∀ s, state = .ok s → Permitted s call)
      (.ok .start) calls) :
    Runs.Throughout (step cost) (fun state => ∃ s, state = .ok s ∧ Correct cost s)
      (.ok .start) calls := by
  refine Runs.throughout_guarded (I := fun state => ∃ s, state = .ok s ∧ Orderly s)
    ?_ ?_ ⟨.start, rfl, .start⟩ permitted
  · rintro _ call ⟨s, rfl, orderly⟩ permitted
    obtain ⟨s', woken, handled, kept, -⟩ := orderly.handle cost (permitted s rfl)
    exact ⟨s', handled, kept⟩
  · rintro _ ⟨s, rfl, orderly⟩
    exact ⟨s, rfl, orderly.correct cost⟩

/-- Threads 1 and 2 wait with the mutex on one condition variable and are woken up together;
thread 1 gets the mutex when thread 3 lets it go, and hands it to thread 2. -/
def twoSleepers : List Call :=
  [.mutexLock 1 0 false 10, .condWait 1 7 0 20, .mutexLock 2 0 true 30, .condWait 2 7 0 40,
    .mutexLock 3 0 false 50, .condBroadcast 3 7 60, .mutexUnlock 3 0 70, .mutexUnlock 1 0 80]

theorem twoSleepers_correct :
    Runs.Throughout (step 5) (fun state => ∃ s, state = .ok s ∧ Correct 5 s)
      (.ok .start) twoSleepers := by
  refine sync_correct 5 twoSleepers ?_
  refine ⟨?_, ?_, ?_, ?_, ?_, ?_, ?_, ?_, trivial⟩
  all_goals
    rintro s ⟨⟩
    rw [Permitted]
    decide

/-! ## Attempts -/

/-- An attempt to lock returns at once, no thread is stalled or resumed, and the caller is told
whether the attempt has made it the owner. -/
def Attempts (cost : ℕ) (thread : ThreadId) (mux : MutexId) (time : ℕ) (s : Server) : Prop :=
  ∃ s' timeEnd locked, s.mutexLock cost thread mux true time = .ok (s', some (timeEnd, locked)) ∧
    s'.threads = s.threads ∧
    (locked = true ↔ (s'.mutex mux).owner = some thread ∧ (s.mutex mux).owner ≠ some thread)

section Attempts

variable {s : Server} {mux : MutexId} {thread : ThreadId}

lemma isLocked_iff {mutex : SimMutex} :
    mutex.isLocked thread = true ↔ mutex.owner ≠ none ∧ mutex.owner ≠ some thread := by
  rw [SimMutex.isLocked]
  cases mutex.owner with
  | none => simp
  | some owner => simp

lemma mutexLock_own (own : (s.mutex mux).owner = some thread) (cost : ℕ) (tryLock : Bool)
    (time : ℕ) : ∃ s', s.mutexLock cost thread mux tryLock time = .ok (s', none) ∧
      s'.threads.Stalled thread := by
  have unlocked : ¬ (tryLock = true ∧ (s.mutex mux).isLocked thread = true) :=
    fun locked => (isLocked_iff.mp locked.2).2 own
  have owned : ¬ (s.mutex mux).owner = none := by simp [own]
  refine ⟨(s.lock mux thread time).1, ?_, ?_⟩
  · rw [Server.mutexLock, getMutex_of_owner own, Except.map, if_neg unlocked]
    simp [Server.lock, owned]
  · rw [Server.lock, if_neg owned]
    exact (stalled_stallThread .mutex).mpr (.inr rfl)

lemma attempts_of_foreign (foreign : (s.mutex mux).owner ≠ some thread) (cost time : ℕ) :
    Attempts cost thread mux time s := by
  obtain ⟨found, got, mutexes, -, threads⟩ := getMutex_create s mux
  rw [Attempts, Server.mutexLock, got, Except.map, mutexes]
  by_cases free : (s.mutex mux).owner = none
  · have unlocked : ¬ (true = true ∧ (s.mutex mux).isLocked thread = true) :=
      fun locked => (isLocked_iff.mp locked.2).1 free
    rw [if_neg unlocked, Server.lock, mutexes, if_pos free]
    refine ⟨_, _, _, rfl, threads, ?_⟩
    rw [mutex_setMutex, update_self]
    exact iff_of_true rfl ⟨rfl, foreign⟩
  · rw [if_pos ⟨rfl, isLocked_iff.mpr ⟨free, foreign⟩⟩]
    refine ⟨_, _, _, rfl, threads, ?_⟩
    rw [mutexes]
    exact iff_of_false Bool.false_ne_true fun both => foreign both.1

/-- An attempt does what it should unless the caller owns the mutex already. -/
theorem tryLock_attempts_iff (cost : ℕ) (thread : ThreadId) (mux : MutexId) (time : ℕ)
    (s : Server) : Attempts cost thread mux time s ↔ (s.mutex mux).owner ≠ some thread := by
  refine ⟨?_, fun foreign => attempts_of_foreign foreign cost time⟩
  rintro ⟨after, timeEnd, locked, returned, -⟩ own
  obtain ⟨stalled, waits, -⟩ := mutexLock_own own cost true time
  rw [waits] at returned
  cases returned

/-- A thread that locks a mutex and then tries to lock it again waits for itself. -/
theorem tryLock_own_stalls :
    ∃ s, Runs.run (step 5) (.ok .start) [.mutexLock 1 0 false 10] = .ok s ∧
      ∃ s', s.mutexLock 5 1 0 true 20 = .ok (s', none) ∧ s'.threads.Stalled 1 :=
  ⟨_, rfl, mutexLock_own rfl 5 true 20⟩

end Attempts

end Sniper.System.Sync
