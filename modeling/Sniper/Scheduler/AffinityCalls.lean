import Sniper.Scheduler.Frame

/-!
# Setting and reading the affinity of a thread

`SyscallMdl::runEnter` emulates `sched_setaffinity` and `sched_getaffinity`. Both look up the thread
that the application names by its number, where zero names the caller. The first call then sets the
affinity of that thread. The second one reads the affinity of the caller, whichever thread was
named.
-/

namespace Sniper.Scheduler

open Sniper.System Fallible

variable {n : ℕ}

/-- What the two calls see: the scheduler, and the numbers that the operating system gave to the
threads (`Thread::m_os_info.tid`). -/
structure Machine (n : ℕ) where
  scheduler : Pinned n
  tid : ThreadId → ℤ

/-- A `cpu_set_t` of this many bytes. -/
structure CpuSet where
  cpusetsize : ℕ
  bits : ℕ → Bool

/-- The loop of `threadSetAffinity` over the bits. -/
def CpuSet.cpus (cpuset : CpuSet) : List ℕ :=
  (List.range (8 * cpuset.cpusetsize)).filter cpuset.bits

def bitsOf (mask : Fin n → Bool) (cpu : ℕ) : Bool :=
  if inside : cpu < n then mask ⟨cpu, inside⟩ else false

def maskBytes (n : ℕ) : ℤ := ((n + 7) / 8 : ℕ)

namespace Machine

def findThreadByTid (tid : ℤ) (m : Machine n) : Option ThreadId :=
  (List.range m.scheduler.numThreads).find? fun thread => m.tid thread = tid

def named (caller : ThreadId) (pid : ℤ) (m : Machine n) : Option ThreadId :=
  if pid = 0 then some caller else m.findThreadByTid pid

/-- `SYS_sched_setaffinity`: the value that is returned, and the machine after the call. -/
def schedSetaffinity (clock : Fin n → ℕ) (globalTime : ℕ) (caller : ThreadId) (pid : ℤ)
    (cpuset : Option CpuSet) (m : Machine n) : Except Fault (ℤ × Machine n) :=
  match cpuset with
  -- `-EFAULT`
  | none => .ok (-14, m)
  | some cpuset =>
    match m.named caller pid with
    -- `-ESRCH`
    | none => .ok (-3, m)
    | some thread =>
      (m.scheduler.threadSetAffinity clock globalTime (some caller) thread (some cpuset.cpus)).map
        fun scheduler => (0, { m with scheduler := scheduler })

/-- `threadGetAffinity`: a thread whose affinity was never set is said to run everywhere. -/
def threadGetAffinity (thread : ThreadId) (cpusetsize : ℕ) (m : Machine n) : Option (ℕ → Bool) :=
  if cpusetsize * 8 < n then none
  else some (bitsOf fun core => (m.scheduler.threadInfo thread).coreAffinity core ||
    !(m.scheduler.threadInfo thread).explicitAffinity)

/-- `SYS_sched_getaffinity` with a buffer of this size: the value that is returned, and the bits
that are written to the buffer. -/
def schedGetaffinity (caller : ThreadId) (pid : ℤ) (cpusetsize : ℕ) (m : Machine n) :
    ℤ × Option (ℕ → Bool) :=
  match (m.named caller pid).bind fun _ => m.threadGetAffinity caller cpusetsize with
  -- `-EINVAL`, made unsigned by the other branch of the conditional
  | none => (2 ^ 32 - 22, none)
  | some bits => (maskBytes n, some bits)

end Machine

/-! ## The affinity stays -/

def Event.Sets (thread : ThreadId) : Event n → Prop
  | .setAffinity _ _ _ other _ => other = thread
  | _ => False

variable {s s' : Pinned n} {thread : ThreadId}

lemma handle_spares {event : Event n}
    (created : thread < s.numThreads) (other : ¬ event.Sets thread)
    (ran : s.handle event = .ok s') :
    s.numThreads ≤ s'.numThreads ∧ s'.affinity thread = s.affinity thread := by
  have of_kept : Kept s s' →
      s.numThreads ≤ s'.numThreads ∧ s'.affinity thread = s.affinity thread :=
    fun kept => ⟨kept.numThreads.ge, congrFun kept.affinity thread⟩
  cases event with
  | threads threads threadCore =>
    cases ran
    exact ⟨le_refl s.numThreads, rfl⟩
  | create initialAffinity =>
    cases ran
    have spares := spares_threadCreate initialAffinity s.numThreads { s with
        numThreads := s.numThreads + 1
        threads := { s.threads with
          status := Function.update s.threads.status s.numThreads .initializing } }
    exact ⟨(Nat.le_succ _).trans spares.numThreads, spares.affinity thread (Nat.ne_of_lt created)⟩
  | start started time =>
    obtain ⟨threads, affinity⟩ := spares_threadStart started time s s' ran
    exact ⟨threads.ge, congrFun affinity thread⟩
  | stall stalled reason time => exact of_kept (kept_threadStall stalled reason time s s' ran)
  | resume resumed time => exact of_kept (kept_threadResume resumed time s s' ran)
  | exit exited time => exact of_kept (kept_threadExit exited time s s' ran)
  | yield clock yields => exact of_kept (kept_threadYield clock yields s s' ran)
  | setAffinity clock globalTime callingThread set mask =>
    have marks := threadSetAffinity_marks clock globalTime callingThread set mask s s' ran
    exact ⟨marks.numThreads.ge, marks.others thread (Ne.symm other)⟩
  | periodic time => exact of_kept (kept_periodic time s s' ran)

lemma run_error (fault : Fault) (events : List (Event n)) :
    Runs.run step (.error fault) events = .error fault := by
  induction events with
  | nil => rfl
  | cons event events ih => exact ih

lemma run_spares {events : List (Event n)}
    (created : thread < s.numThreads) (others : ∀ event ∈ events, ¬ event.Sets thread)
    (ran : Runs.run step (.ok s) events = .ok s') : s'.affinity thread = s.affinity thread := by
  induction events generalizing s with
  | nil =>
    cases ran
    rfl
  | cons event events ih =>
    rw [Runs.run_cons] at ran
    cases handled : s.handle event with
    | error fault =>
      rw [show step (.ok s) event = .error fault from handled, run_error] at ran
      cases ran
    | ok next =>
      rw [show step (.ok s) event = .ok next from handled] at ran
      obtain ⟨more, same⟩ := handle_spares created (others event List.mem_cons_self) handled
      rw [ih (Nat.lt_of_lt_of_le created more)
        (fun event mem => others event (List.mem_cons_of_mem _ mem)) ran, same]

/-! ## Reading back -/

/-- The thread's own affinity is this set of cores: it was set to it, or it was never set and the
set is that of all cores. -/
def Pinned.Reports (s : Pinned n) (thread : ThreadId) (mask : Fin n → Bool) : Prop :=
  ∀ core, mask core =
    ((s.threadInfo thread).coreAffinity core || !(s.threadInfo thread).explicitAffinity)

lemma bitsOf_injective : Function.Injective (bitsOf (n := n)) := by
  intro mask mask' same
  funext core
  have here := congrFun same core.val
  simpa [bitsOf] using here

lemma mem_cpus_bitsOf {cpusetsize : ℕ} (large : n ≤ 8 * cpusetsize) (mask : Fin n → Bool)
    (core : Fin n) : core.val ∈ CpuSet.cpus ⟨cpusetsize, bitsOf mask⟩ ↔ mask core = true := by
  have inside : core.val < 8 * cpusetsize := Nat.lt_of_lt_of_le core.isLt large
  simp [CpuSet.cpus, bitsOf, inside]

section ReadBack

variable {m m' : Machine n} {p q : ThreadId} {pid : ℤ} {mask : Fin n → Bool} {cpusetsize : ℕ}

lemma named_created (caller : p < m.scheduler.numThreads) (named : m.named p pid = some q) :
    q < m.scheduler.numThreads := by
  obtain ⟨-, found⟩ | ⟨-, found⟩ := ite_eq_iff.mp named
  · cases found
    exact caller
  · exact List.mem_range.mp (List.mem_of_find?_eq_some found)

lemma set_reports {clock : Fin n → ℕ} {globalTime : ℕ} (large : n ≤ 8 * cpusetsize)
    (named : m.named p pid = some q)
    (set : m.schedSetaffinity clock globalTime p pid (some ⟨cpusetsize, bitsOf mask⟩) =
      .ok (0, m')) :
    m.scheduler.numThreads ≤ m'.scheduler.numThreads ∧ m'.scheduler.Reports q mask := by
  rw [Machine.schedSetaffinity, named] at set
  obtain ⟨scheduler, sets, same⟩ := map_eq_ok.mp set
  obtain rfl := (Prod.mk.inj same).2
  have marks := threadSetAffinity_marks clock globalTime (some p) q _ m.scheduler scheduler sets
  refine ⟨marks.numThreads.ge, fun core => ?_⟩
  rw [marks.cores core, marks.explicit]
  simp [mem_cpus_bitsOf large mask core]

lemma get_iff (large : n ≤ 8 * cpusetsize) (named : m.named p pid = some q) :
    m.schedGetaffinity p pid cpusetsize = (maskBytes n, some (bitsOf mask)) ↔
      m.scheduler.Reports p mask := by
  have room : ¬ cpusetsize * 8 < n := by omega
  rw [Machine.schedGetaffinity, named]
  simp only [Option.bind_some, Machine.threadGetAffinity, if_neg room, Prod.mk.injEq,
    Option.some.injEq, true_and, bitsOf_injective.eq_iff]
  rw [eq_comm, funext_iff]
  rfl

end ReadBack

/-- A thread sets the affinity of a thread and reads it back later, with any events in between that
do not set it again: it reads what it has set if and only if the thread is itself, or its own
affinity happens to be the same. -/
theorem getaffinity_reads_iff (clock : Fin n → ℕ) (globalTime : ℕ) (p q : ThreadId) (pid : ℤ)
    (mask : Fin n → Bool) (cpusetsize : ℕ) (large : n ≤ 8 * cpusetsize)
    (before after later : Machine n)
    (caller : p < before.scheduler.numThreads) (named : before.named p pid = some q)
    (set : before.schedSetaffinity clock globalTime p pid (some ⟨cpusetsize, bitsOf mask⟩) =
      .ok (0, after)) (events : List (Event n)) (others : ∀ event ∈ events, ¬ event.Sets q)
    (ran : Runs.run step (.ok after.scheduler) events = .ok later.scheduler)
    (still : later.named p pid = some q) :
    later.schedGetaffinity p pid cpusetsize = (maskBytes n, some (bitsOf mask)) ↔
      p = q ∨ later.scheduler.Reports p mask := by
  rw [get_iff large still]
  refine ⟨.inr, fun either => either.elim (fun self => ?_) id⟩
  obtain ⟨more, reports⟩ := set_reports large named set
  have created := Nat.lt_of_lt_of_le (named_created caller named) more
  have same := run_spares created others ran
  subst self
  intro core
  rw [reports core]
  have cores := congrArg (fun affinity => affinity.2.2 core) same
  have explicit := congrArg (fun affinity => affinity.2.1) same
  exact congrArg₂ (fun a b => a || !b) cores.symm explicit.symm

def pairOn (cores : List (Fin n)) : Machine n where
  scheduler := ((Pinned.start 1000).createThread cores).createThread cores
  tid := fun thread => 100 + thread

/-- The first thread sets the affinity of the second one to core 1 and reads that it may run on
core 0. -/
theorem otherThread_misread : let mask : Fin 2 → Bool := fun core => core = 1
    ((pairOn (n := 2) [0, 1]).schedSetaffinity (fun _ => 0) 0 0 101
        (some ⟨8, bitsOf mask⟩)).toOption.map
      (fun set => (set.1, (set.2.schedGetaffinity 0 101 8).1,
        (set.2.schedGetaffinity 0 101 8).2.map fun bits => (bits 0, bits 1))) =
      some (0, 1, some (true, true)) ∧ (bitsOf mask 0, bitsOf mask 1) = (false, true) := by
  decide

/-- The first thread sets its own affinity and reads it back, with another thread created in
between. -/
theorem ownThread_read : ∃ after later : Machine 2,
    (pairOn [0, 1]).schedSetaffinity (fun _ => 0) 0 0 100
      (some ⟨8, bitsOf fun core : Fin 2 => core = 1⟩) = .ok (0, after) ∧
    Runs.run step (.ok after.scheduler) [.create [0]] = .ok later.scheduler ∧
    later.schedGetaffinity 0 100 8 = (maskBytes 2, some (bitsOf fun core : Fin 2 => core = 1)) := by
  refine ⟨_, ⟨_, fun thread => 100 + thread⟩, rfl, rfl, ?_⟩
  exact (getaffinity_reads_iff (fun _ => 0) 0 0 0 100 (fun core : Fin 2 => core = 1) 8 (by decide)
    (pairOn [0, 1]) _ _ (by decide) rfl rfl [.create [0]] (by simp [Event.Sets]) rfl rfl).mpr
      (.inl rfl)

end Sniper.Scheduler
