import Sniper.Scheduler.Assignment

/-!
# What the scheduler leaves alone

Most calls of the scheduler only move threads between cores. They leave alone how many threads there
are, the size of `m_threads_runnable`, and on which cores each thread may run. Only a start makes
room for more threads, and only `threadSetAffinity` and `threadCreate` change the affinity of a
thread that there is.
-/

namespace Sniper.Scheduler

open Sniper.System Fallible Function

variable {n : ℕ}

def ThreadInfo.affinity (info : ThreadInfo n) : Bool × Bool × (Fin n → Bool) :=
  (info.hasAffinity, info.explicitAffinity, info.coreAffinity)

def Pinned.affinity (s : Pinned n) (thread : ThreadId) : Bool × Bool × (Fin n → Bool) :=
  (s.threadInfo thread).affinity

structure Kept (s s' : Pinned n) : Prop where
  numThreads : s'.numThreads = s.numThreads
  numRunnable : s'.numRunnable = s.numRunnable
  affinity : s'.affinity = s.affinity

lemma Kept.refl (s : Pinned n) : Kept s s := ⟨rfl, rfl, rfl⟩

lemma Kept.trans {s s' s'' : Pinned n} (first : Kept s s') (second : Kept s' s'') : Kept s s'' where
  numThreads := second.numThreads.trans first.numThreads
  numRunnable := second.numRunnable.trans first.numRunnable
  affinity := second.affinity.trans first.affinity

section Kept

variable {s s' : Pinned n} {thread : ThreadId} {hook : Pinned.Hook n} {time depth : ℕ}

open Pinned

lemma affinity_setInfo (s : Pinned n) (thread : ThreadId) (info : ThreadInfo n) :
    (s.setInfo thread info).affinity = update s.affinity thread info.affinity := by
  funext other
  by_cases same : other = thread
  · simp [affinity, setInfo, same]
  · simp [affinity, setInfo, same]

lemma Kept.setInfo {info : ThreadInfo n} (same : info.affinity = s.affinity thread) :
    Kept s (s.setInfo thread info) where
  numThreads := rfl
  numRunnable := rfl
  affinity := by rw [affinity_setInfo, same, update_eq_self]

def Moving (hook : Pinned.Hook n) : Prop :=
  ∀ thread time s, Ensures (hook thread time s) (Kept s)

lemma kept_moveThread (moving : Moving hook) (core : Option (Fin n)) :
    Ensures (s.moveThread hook thread core time) (Kept s) := by
  intro s' ran
  obtain ⟨found, lookup, ran⟩ := bind_eq_ok.mp ran
  obtain ⟨-, ⟨⟩⟩ | ⟨-, ⟨⟩⟩ := ite_eq_iff.mp lookup
  cases core with
  | none =>
    cases ran
    exact ⟨rfl, rfl, rfl⟩
  | some core =>
    obtain ⟨woken, wakes, rfl⟩ := map_eq_ok.mp ran
    have kept : Kept s woken := by
      obtain ⟨-, wakes⟩ | ⟨-, wakes⟩ := ite_eq_iff.mp wakes
      · have resumed := moving thread time _ woken wakes
        exact ⟨resumed.numThreads, resumed.numRunnable, resumed.affinity⟩
      · cases wakes
        exact .refl s
    exact ⟨kept.numThreads, kept.numRunnable, kept.affinity⟩

lemma kept_scheduleOut (moving : Moving hook) (core : Fin n) :
    Ensures (s.scheduleOut hook time core thread) (Kept s) := by
  intro s' ran
  rw [scheduleOut] at ran
  have moved := kept_moveThread moving none s' ran
  refine (Kept.setInfo ?_).trans moved
  rfl

lemma kept_scheduleIn (moving : Moving hook) (core : Fin n) :
    Ensures (s.scheduleIn hook time core thread) (Kept s) := by
  intro s' ran
  have left : Kept s ((s.threadInfo thread).coreRunning.elim s fun other =>
      s.setCoreThread other none) := by
    cases (s.threadInfo thread).coreRunning with
    | none => exact .refl s
    | some other => exact ⟨rfl, rfl, rfl⟩
  rw [scheduleIn] at ran
  have moved := kept_moveThread moving (some core) s' ran
  refine left.trans ((Kept.setInfo ?_).trans moved)
  rfl

lemma kept_rescheduleWith (moving : Moving hook) (core : Fin n) :
    Ensures (s.rescheduleWith hook time core) (Kept s) := by
  intro s' ran
  obtain ⟨-, ran⟩ | ⟨-, ran⟩ := ite_eq_iff.mp ran
  · cases ran
    exact .refl s
  obtain ⟨moved, moves, rfl⟩ := map_eq_ok.mp ran
  have kept : Kept s moved := by
    obtain ⟨-, moves⟩ | ⟨-, moves⟩ := ite_eq_iff.mp moves
    · cases moves
      exact .refl s
    obtain ⟨empty, leaves, enters⟩ := bind_eq_ok.mp moves
    have vacated : Kept s empty := by
      cases current : s.coreThreadRunning core with
      | none =>
        rw [current] at leaves
        cases leaves
        exact .refl s
      | some thread =>
        rw [current] at leaves
        exact kept_scheduleOut moving core empty leaves
    have noted : Kept empty (empty.setCoreThread core (s.selectThread time core).1) :=
      ⟨rfl, rfl, rfl⟩
    refine vacated.trans (noted.trans ?_)
    cases new : (s.selectThread time core).1 with
    | none =>
      rw [new] at enters
      cases enters
      exact .refl _
    | some thread =>
      rw [new] at enters
      exact kept_scheduleIn moving core moved enters
  exact ⟨kept.numThreads, kept.numRunnable, kept.affinity⟩

lemma moving_threadResumeWith {again : ℕ → Fin n → Pinned n → Except Fault (Pinned n)}
    (keeps : ∀ time core s, Ensures (again time core s) (Kept s)) :
    Moving (threadResumeWith again) := by
  intro thread time s s' ran
  have marked : Kept s (s.setRunnable thread true) := ⟨rfl, rfl, rfl⟩
  rw [threadResumeWith] at ran
  cases found : (s.setRunnable thread true).findFreeCoreForThread thread with
  | none =>
    rw [found] at ran
    cases ran
    exact marked
  | some core =>
    rw [found] at ran
    exact marked.trans (keeps time core _ s' ran)

lemma kept_reschedule (depth time : ℕ) (core : Fin n) (s : Pinned n) :
    Ensures (s.reschedule depth time core) (Kept s) := by
  induction depth generalizing time core s with
  | zero => exact .error
  | succ depth ih => exact kept_rescheduleWith (moving_threadResumeWith ih) core

lemma kept_rescheduleCore (time : ℕ) (core : Fin n) (s : Pinned n) :
    Ensures (s.rescheduleCore time core) (Kept s) :=
  kept_reschedule (n + 1) time core s

lemma kept_elim (found : Option (Fin n)) (time : Fin n → ℕ) (s : Pinned n) :
    Ensures (found.elim (.ok s) fun core => s.rescheduleCore (time core) core) (Kept s) := by
  cases found with
  | none => exact .ok (.refl s)
  | some core => exact kept_rescheduleCore (time core) core s

lemma kept_threadYield (clock : Fin n → ℕ) (thread : ThreadId) (s : Pinned n) :
    Ensures (s.threadYield clock thread) (Kept s) := by
  intro s' ran
  rw [threadYield] at ran
  cases running : (s.threadInfo thread).coreRunning with
  | none =>
    rw [running] at ran
    cases ran
    exact .refl s
  | some core =>
    rw [running] at ran
    obtain ⟨first, reschedules, ran⟩ := bind_eq_ok.mp ran
    have kept := kept_rescheduleCore _ core _ first reschedules
    have kept : Kept s first := ⟨kept.numThreads, kept.numRunnable, kept.affinity⟩
    obtain ⟨-, ran⟩ | ⟨-, ran⟩ := ite_eq_iff.mp ran
    · cases ran
      exact kept
    · exact kept.trans (kept_elim _ (fun _ => clock core) first s' ran)

lemma kept_rescheduleRunning (time : ℕ) (thread : ThreadId) (s : Pinned n) :
    Ensures (s.rescheduleRunning time thread) (Kept s) :=
  kept_elim _ (fun _ => time) s

lemma kept_threadStall (thread : ThreadId) (reason : StallType) (time : ℕ) (s : Pinned n) :
    Ensures (s.threadStall thread reason time) (Kept s) := by
  intro s' ran
  obtain ⟨-, ran⟩ | ⟨-, ran⟩ := ite_eq_iff.mp ran
  · cases ran
    exact .refl s
  · have kept := kept_rescheduleRunning time thread _ s' ran
    exact ⟨kept.numThreads, kept.numRunnable, kept.affinity⟩

lemma kept_threadResume (thread : ThreadId) (time : ℕ) (s : Pinned n) :
    Ensures (s.threadResume thread time) (Kept s) := by
  intro s' ran
  obtain ⟨found, lookup, ran⟩ := bind_eq_ok.mp ran
  obtain ⟨-, ⟨⟩⟩ | ⟨-, ⟨⟩⟩ := ite_eq_iff.mp lookup
  exact moving_threadResumeWith (fun time core s => kept_rescheduleCore time core s)
    thread time s s' ran

lemma kept_threadExit (thread : ThreadId) (time : ℕ) (s : Pinned n) :
    Ensures (s.threadExit thread time) (Kept s) := by
  intro s' ran
  have kept := kept_rescheduleRunning time thread _ s' ran
  exact ⟨kept.numThreads, kept.numRunnable, kept.affinity⟩

lemma kept_periodicLoop (time : ℕ) (cores : List (Fin n)) (s : Pinned n) :
    Ensures (s.periodicLoop time cores) (Kept s) := by
  induction cores generalizing s with
  | nil => exact .ok (.refl s)
  | cons core cores ih =>
    intro s' ran
    obtain ⟨first, here, rest⟩ := bind_eq_ok.mp ran
    have kept : Kept s first := by
      obtain ⟨-, here⟩ | ⟨-, here⟩ := ite_eq_iff.mp here
      · exact kept_rescheduleCore time core s first here
      · cases here
        exact ⟨rfl, rfl, rfl⟩
    exact kept.trans (ih first s' rest)

lemma kept_periodic (time : ℕ) (s : Pinned n) : Ensures (s.periodic time) (Kept s) := by
  intro s' ran
  obtain ⟨looped, loops, rfl⟩ := map_eq_ok.mp ran
  have kept := kept_periodicLoop time _ s looped loops
  exact ⟨kept.numThreads, kept.numRunnable, kept.affinity⟩

end Kept

/-! ## Starts, new threads and affinities -/

structure Spares (thread : ThreadId) (s s' : Pinned n) : Prop where
  numThreads : s.numThreads ≤ s'.numThreads
  affinity : ∀ other, other ≠ thread → s'.affinity other = s.affinity other

section Spares

variable {s s' s'' : Pinned n} {thread : ThreadId}

lemma Spares.trans (first : Spares thread s s') (second : Spares thread s' s'') :
    Spares thread s s'' where
  numThreads := first.numThreads.trans second.numThreads
  affinity := fun other away => (second.affinity other away).trans (first.affinity other away)

lemma Spares.setInfo (s : Pinned n) (thread : ThreadId) (info : ThreadInfo n) :
    Spares thread s (s.setInfo thread info) where
  numThreads := le_refl s.numThreads
  affinity other away := by
    rw [affinity_setInfo]
    exact update_of_ne away ..

lemma spares_threadStart (thread : ThreadId) (time : ℕ) (s : Pinned n) :
    Ensures (s.threadStart thread time)
      fun s' => s'.numThreads = s.numThreads ∧ s'.affinity = s.affinity := by
  intro s' ran
  obtain ⟨found, lookup, ran⟩ := bind_eq_ok.mp ran
  obtain ⟨-, ⟨⟩⟩ | ⟨-, ⟨⟩⟩ := ite_eq_iff.mp lookup
  have kept := kept_elim _ (fun _ => time) _ s' ran
  exact ⟨kept.numThreads, kept.affinity⟩

open ThreadInfo Spares

lemma spares_threadCreate (initialAffinity : List (Fin n)) (thread : ThreadId) (s : Pinned n) :
    Spares thread s (s.threadCreate initialAffinity thread) := by
  rw [Pinned.threadCreate]
  generalize (if (s.threadInfo thread).hasAffinity then s.threadInfo thread
    else initialAffinity.foldl addAffinity (s.threadInfo thread).clearAffinity) = info
  have noted := setInfo s thread info
  cases (s.setInfo thread info).findFreeCoreForThread thread with
  | some core =>
    have placed := noted.trans (setInfo _ thread { info with coreRunning := some core })
    exact ⟨placed.numThreads, placed.affinity⟩
  | none => exact noted.trans (setInfo _ thread { info with coreRunning := none })

/-- `threadSetAffinity` gives the thread this affinity. -/
structure Marks (thread : ThreadId) (mask : Option (List ℕ)) (s s' : Pinned n) : Prop where
  numThreads : s'.numThreads = s.numThreads
  numRunnable : s'.numRunnable = s.numRunnable
  others : ∀ other, other ≠ thread → s'.affinity other = s.affinity other
  explicit : (s'.threadInfo thread).explicitAffinity = true
  cores : ∀ core, (s'.threadInfo thread).coreAffinity core =
    mask.elim true fun cpus => decide (core.val ∈ cpus)

lemma Marks.kept {mask : Option (List ℕ)} (marks : Marks thread mask s s') (kept : Kept s' s'') :
    Marks thread mask s s'' where
  numThreads := kept.numThreads.trans marks.numThreads
  numRunnable := kept.numRunnable.trans marks.numRunnable
  others := fun other away => (congrFun kept.affinity other).trans (marks.others other away)
  explicit := by
    have same := congrArg (fun affinity => affinity.2.1) (congrFun kept.affinity thread)
    exact same.trans marks.explicit
  cores core := by
    have same := congrArg (fun affinity => affinity.2.2 core) (congrFun kept.affinity thread)
    exact same.trans (marks.cores core)

lemma coreAffinity_foldl_add (cores : List (Fin n)) (info : ThreadInfo n) (core : Fin n) :
    (cores.foldl addAffinity info).coreAffinity core =
      (info.coreAffinity core || decide (core ∈ cores)) := by
  induction cores generalizing info with
  | nil => simp
  | cons added cores ih =>
    rw [List.foldl_cons, ih (info.addAffinity added)]
    by_cases same : core = added
    · simp [addAffinity, same]
    · simp [addAffinity, same]

lemma explicitAffinity_foldl_add (cores : List (Fin n)) (info : ThreadInfo n) :
    (cores.foldl addAffinity info).explicitAffinity = info.explicitAffinity := by
  induction cores generalizing info with
  | nil => rfl
  | cons added cores ih => exact ih (info.addAffinity added)

lemma addMask_marks (thread : ThreadId) (mask : List ℕ) (s : Pinned n) :
    Ensures (s.addMask thread mask) fun s' =>
      s'.numThreads = s.numThreads ∧ s'.numRunnable = s.numRunnable ∧
      (∀ other, other ≠ thread → s'.affinity other = s.affinity other) ∧
      (s'.threadInfo thread).explicitAffinity = (s.threadInfo thread).explicitAffinity ∧
      ∀ core, (s'.threadInfo thread).coreAffinity core =
        ((s.threadInfo thread).coreAffinity core || decide (core.val ∈ mask)) := by
  induction mask generalizing s with
  | nil => exact .ok (by simp)
  | cons cpu mask ih =>
    intro s' ran
    rw [Pinned.addMask] at ran
    split at ran
    · next valid =>
      obtain ⟨threads, room, others, explicit, cores⟩ := ih _ s' ran
      have spared := setInfo s thread ((s.threadInfo thread).addAffinity ⟨cpu, valid⟩)
      refine ⟨threads, room, fun other away =>
        (others other away).trans (spared.affinity other away), ?_, fun core => ?_⟩
      · rw [explicit]
        simp [Pinned.setInfo, addAffinity]
      · rw [cores]
        by_cases same : core = ⟨cpu, valid⟩
        · simp [Pinned.setInfo, addAffinity, same]
        · have other : core.val ≠ cpu := fun equal => same (Fin.ext equal)
          simp [Pinned.setInfo, addAffinity, same, other]
    · cases ran

lemma setAffinity_marks (thread : ThreadId) (mask : Option (List ℕ)) (s : Pinned n) :
    Ensures (s.setAffinity thread mask) (Marks thread mask s) := by
  intro s' ran
  have marked := setInfo s thread { s.threadInfo thread with explicitAffinity := true }
  cases mask with
  | none =>
    cases ran
    refine ⟨rfl, rfl, ?_, ?_, fun core => ?_⟩
    · exact (marked.trans (setInfo _ thread _)).affinity
    · simp [Pinned.setInfo, explicitAffinity_foldl_add]
    · simp [Pinned.setInfo, coreAffinity_foldl_add]
  | some cpus =>
    obtain ⟨threads, room, others, explicit, cores⟩ := addMask_marks thread cpus _ s' ran
    refine ⟨threads, room, fun other away => (others other away).trans ?_, ?_, fun core => ?_⟩
    · exact (marked.trans (setInfo _ thread _)).affinity other away
    · rw [explicit]
      simp [Pinned.setInfo, clearAffinity]
    · rw [cores]
      simp [Pinned.setInfo, clearAffinity]

lemma threadSetAffinity_marks (clock : Fin n → ℕ) (globalTime : ℕ)
    (callingThread : Option ThreadId) (thread : ThreadId) (mask : Option (List ℕ)) (s : Pinned n) :
    Ensures (s.threadSetAffinity clock globalTime callingThread thread mask)
      (Marks thread mask s) := by
  intro s' ran
  obtain ⟨marked, sets, ran⟩ := bind_eq_ok.mp ran
  have marks := setAffinity_marks thread mask s marked sets
  refine marks.kept ?_
  split at ran
  · cases ran
    exact .refl _
  split at ran
  · exact kept_threadYield clock thread marked s' ran
  split at ran
  · split at ran
    · cases ran
      exact .refl _
    · cases ran
      exact ⟨rfl, rfl, rfl⟩
  · split at ran
    · exact kept_elim _ (fun core => max (clock core) globalTime) marked s' ran
    · cases ran
      exact .refl _

lemma handle_numThreads {event : Event n} (other : ∀ cores, event ≠ .create cores) :
    Ensures (s.handle event) fun s' => s'.numThreads = s.numThreads := by
  cases event with
  | threads threads threadCore => exact .ok rfl
  | create initialAffinity => exact absurd rfl (other initialAffinity)
  | start thread time => exact (spares_threadStart thread time s).mono fun _ held => held.1
  | stall thread reason time =>
    exact (kept_threadStall thread reason time s).mono fun _ kept => kept.numThreads
  | resume thread time => exact (kept_threadResume thread time s).mono fun _ kept => kept.numThreads
  | exit thread time => exact (kept_threadExit thread time s).mono fun _ kept => kept.numThreads
  | yield clock thread => exact (kept_threadYield clock thread s).mono fun _ kept => kept.numThreads
  | setAffinity clock globalTime callingThread thread mask =>
    exact (threadSetAffinity_marks clock globalTime callingThread thread mask s).mono
      fun _ marks => marks.numThreads
  | periodic time => exact (kept_periodic time s).mono fun _ kept => kept.numThreads

lemma numThreads_createThread (initialAffinity : List (Fin n)) (s : Pinned n) :
    (s.createThread initialAffinity).numThreads = s.numThreads + 1 := by
  rw [Pinned.createThread, Pinned.threadCreate]
  split <;> rfl

lemma setAffinity_running (thread : ThreadId) (mask : Option (List ℕ)) (s : Pinned n) :
    Ensures (s.setAffinity thread mask) fun s' =>
      s'.coreRunning = s.coreRunning ∧ s'.threadsRunnable = s.threadsRunnable := by
  have same (s : Pinned n) {info : ThreadInfo n} (still : info.coreRunning = s.coreRunning thread) :
      (s.setInfo thread info).coreRunning = s.coreRunning := by
    rw [coreRunning_setInfo, still, update_eq_self]
  have masked : ∀ (cpus : List ℕ) (s : Pinned n), Ensures (s.addMask thread cpus) fun s' =>
      s'.coreRunning = s.coreRunning ∧ s'.threadsRunnable = s.threadsRunnable := by
    intro cpus
    induction cpus with
    | nil => exact fun s => .ok ⟨rfl, rfl⟩
    | cons cpu cpus ih =>
      intro s s' ran
      rw [Pinned.addMask] at ran
      split at ran
      · obtain ⟨running, runnable⟩ := ih _ s' ran
        exact ⟨running.trans (same s rfl), runnable⟩
      · cases ran
  have marked : (s.setInfo thread { s.threadInfo thread with
      explicitAffinity := true }).coreRunning = s.coreRunning := same s rfl
  intro s' ran
  cases mask with
  | none =>
    cases ran
    exact ⟨(same _ (coreRunning_addAffinity _ _)).trans marked, rfl⟩
  | some cpus =>
    obtain ⟨running, runnable⟩ := masked cpus _ s' ran
    refine ⟨running.trans ((same _ ?_).trans marked), runnable⟩
    rfl

lemma threadSetAffinity_idle (clock : Fin n → ℕ) (globalTime : ℕ) (mask : Option (List ℕ))
    (idle : s.coreRunning thread = none) (waits : s.threadsRunnable thread = false) :
    Ensures (s.threadSetAffinity clock globalTime none thread mask)
      fun s' => s'.coreRunning thread = none := by
  intro s' ran
  obtain ⟨marked, sets, ran⟩ := bind_eq_ok.mp ran
  obtain ⟨running, runnable⟩ := setAffinity_running thread mask s marked sets
  have idle' : (marked.threadInfo thread).coreRunning = none := (congrFun running thread).trans idle
  rw [if_neg (by simp : ¬ none = some thread), idle', runnable, waits] at ran
  obtain ⟨-, ran⟩ | ⟨-, ran⟩ := ite_eq_iff.mp ran
  · cases ran
    exact idle'
  · cases ran
    exact idle'

end Spares

end Sniper.Scheduler
