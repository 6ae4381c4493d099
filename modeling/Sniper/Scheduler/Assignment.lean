import Mathlib.Data.Fintype.Card
import Sniper.Lib.Fallible
import Sniper.Lib.Selection
import Sniper.Lib.Tables
import Sniper.Lib.Runs
import Sniper.Scheduler.Pinned

/-!
# Which thread runs where

The scheduler keeps the thread of each core and the core of each thread. While a core is
rescheduled the two disagree for a time, but not when the thread manager calls back: the core
is empty or has its new thread by then. A nested call fills a free core before it moves a thread
itself, so there are at most as many of them as there are free cores.
-/

namespace Sniper.Scheduler

open Fallible Matching Sniper.System Function Finset

variable {n : ℕ}

def Pinned.coreRunning (s : Pinned n) (thread : ThreadId) : Option (Fin n) :=
  (s.threadInfo thread).coreRunning

structure Sound (s : Pinned n) : Prop where
  inverse : Inverse s.coreThreadRunning s.coreRunning
  running : ∀ thread, s.coreRunning thread ≠ none → thread < s.numThreads
  runnable : ∀ thread, s.threadsRunnable thread = true → thread < s.numThreads

def Keeps (called : Except Fault (Pinned n)) : Prop := ∃ s, called = .ok s ∧ Sound s

section Sound

variable {s s' : Pinned n} {thread : ThreadId} {core : Fin n}

open Pinned

lemma Sound.start (quantum : ℕ) : Sound (start quantum : Pinned n) :=
  ⟨inverse_none, fun _ running => absurd rfl running, by rintro _ ⟨⟩⟩

lemma Sound.alike (sound : Sound s) (cores : s'.coreThreadRunning = s.coreThreadRunning)
    (threads : s'.coreRunning = s.coreRunning) (number : s'.numThreads = s.numThreads)
    (runnable : ∀ thread, s'.threadsRunnable thread = true → thread < s.numThreads) : Sound s' where
  inverse := by
    rw [cores, threads]
    exact sound.inverse
  running := by
    rw [threads, number]
    exact sound.running
  runnable := by
    rw [number]
    exact runnable

lemma coreRunning_setInfo (s : Pinned n) (thread : ThreadId) (info : ThreadInfo n) :
    (s.setInfo thread info).coreRunning = update s.coreRunning thread info.coreRunning := by
  funext other
  by_cases same : other = thread
  · simp [coreRunning, setInfo, same]
  · simp [coreRunning, setInfo, same]

section

variable (sound : Sound s)

include sound

variable {info : ThreadInfo n}

lemma Sound.setInfo
    (same : info.coreRunning = s.coreRunning thread) : Sound (s.setInfo thread info) := by
  refine sound.alike rfl ?_ rfl sound.runnable
  rw [coreRunning_setInfo, same]
  exact update_eq_self thread s.coreRunning

lemma Sound.setQuantumLeft (core : Fin n) (time : ℕ) :
    Sound (s.setQuantumLeft core time) := sound.alike rfl rfl rfl sound.runnable

lemma Sound.setRunnable {runnable : Bool} (created : runnable = true → thread < s.numThreads) :
    Sound (s.setRunnable thread runnable) := by
  refine sound.alike rfl rfl rfl fun other => ?_
  change update s.threadsRunnable thread runnable other = true → _
  by_cases same : other = thread
  · rw [same, update_self]
    exact created
  · rw [update_of_ne same]
    exact sound.runnable other

lemma Sound.link (created : thread < s.numThreads)
    (free : s.coreThreadRunning core = none) (idle : s.coreRunning thread = none)
    (runs : info.coreRunning = some core) :
    Sound ((s.setCoreThread core (some thread)).setInfo thread info) where
  inverse := by
    rw [coreRunning_setInfo, runs]
    exact sound.inverse.link free idle
  running other := by
    rw [coreRunning_setInfo]
    by_cases same : other = thread
    · rw [same]
      exact fun _ => created
    · rw [update_of_ne same]
      exact sound.running other
  runnable := sound.runnable

lemma Sound.unlink (linked : s.coreThreadRunning core = some thread)
    (stops : info.coreRunning = none) :
    Sound ((s.setInfo thread info).setCoreThread core none) where
  inverse := by
    change Inverse (update s.coreThreadRunning core none) (s.setInfo thread info).coreRunning
    rw [coreRunning_setInfo, stops]
    exact sound.inverse.unlink linked
  running other := by
    change (s.setInfo thread info).coreRunning other ≠ none → _
    rw [coreRunning_setInfo, stops]
    by_cases same : other = thread
    · rw [same, update_self]
      exact fun running => absurd rfl running
    · rw [update_of_ne same]
      exact sound.running other
  runnable := sound.runnable

lemma Keeps.ok : Keeps (.ok s) := ⟨s, rfl, sound⟩

end

variable {called : Except Fault (Pinned n)}

lemma Keeps.bind {f : Pinned n → Except Fault (Pinned n)}
    (first : Keeps called) (rest : ∀ s, Sound s → Keeps (f s)) : Keeps (called.bind f) := by
  obtain ⟨s, rfl, sound⟩ := first
  exact rest s sound

lemma Keeps.map {f : Pinned n → Pinned n}
    (first : Keeps called) (rest : ∀ s, Sound s → Sound (f s)) : Keeps (called.map f) := by
  obtain ⟨s, rfl, sound⟩ := first
  exact ⟨f s, rfl, rest s sound⟩

end Sound

/-! ## Selecting a thread -/

abbrev Pinned.Wins (time : ℕ) (core : Fin n) (s : Pinned n) (thread : ThreadId) : Prop :=
  FirstBest.Wins (fun thread => s.isCandidate core thread = true)
    (fun thread => Pinned.score time (s.threadInfo thread)) (-9223372036854775808) s.numRunnable
    thread

section Select

variable {s : Pinned n} {time : ℕ} {core : Fin n} {thread : ThreadId}

lemma selectThread_wins (selected : (s.selectThread time core).1 = some thread) :
    s.Wins time core thread := FirstBest.wins_of_best selected

lemma selectThread_or_beaten (below : thread < s.numRunnable)
    (candidate : s.isCandidate core thread = true)
    (above : -9223372036854775808 < Pinned.score time (s.threadInfo thread)) :
    (s.selectThread time core).1 = some thread ∨ ∃ other : ℕ, s.Wins time core other ∧
      (Pinned.score time (s.threadInfo thread) < Pinned.score time (s.threadInfo other) ∨
        Pinned.score time (s.threadInfo thread) = Pinned.score time (s.threadInfo other) ∧
          other < thread) :=
  FirstBest.best_or_beaten below candidate above

lemma isCandidate_spec (candidate : s.isCandidate core thread = true) :
    s.threadsRunnable thread = true ∧
      (s.coreRunning thread = none ∨ s.coreRunning thread = some core) := by
  rw [Pinned.isCandidate, Bool.and_eq_true, Bool.and_eq_true, Bool.or_eq_true] at candidate
  obtain ⟨⟨-, runnable⟩, place⟩ := candidate
  refine ⟨runnable, place.imp ?_ of_decide_eq_true⟩
  intro idle
  simpa [ThreadInfo.isRunning, Pinned.coreRunning] using idle

end Select

/-! ## One call of `reschedule` -/

/-- A call of `reschedule`, in the state that it is made in. -/
structure Call (n : ℕ) where
  core : Fin n
  state : Pinned n

namespace Call

def current (call : Call n) : Option ThreadId := call.state.coreThreadRunning call.core

def starting (call : Call n) : Bool :=
  call.current.elim false fun thread => call.state.threads.status thread = .initializing

def selected (time : ℕ) (call : Call n) : Option ThreadId :=
  (call.state.selectThread time call.core).1

def Moves (time : ℕ) (call : Call n) : Prop :=
  call.starting = false ∧ call.current ≠ call.selected time

instance (time : ℕ) (call : Call n) : Decidable (call.Moves time) :=
  inferInstanceAs (Decidable (_ ∧ _))

def vacated (time : ℕ) (call : Call n) : Pinned n :=
  call.current.elim call.state fun thread =>
    (call.state.setInfo thread { call.state.threadInfo thread with
      coreRunning := none
      lastScheduledOut := time + 1000 * call.core }).setThreadCore thread none

/-- The state when the new thread is recorded, before it moves. -/
def placed (time : ℕ) (call : Call n) : Pinned n :=
  let s := (call.vacated time).setCoreThread call.core (call.selected time)
  (call.selected time).elim s fun thread => s.setInfo thread { s.threadInfo thread with
    coreRunning := some call.core
    lastScheduledIn := time }

end Call

section Call

variable {call : Call n} {time : ℕ} {thread : ThreadId}

open Call

lemma coreThreadRunning_vacated (call : Call n) (time : ℕ) :
    (call.vacated time).coreThreadRunning = call.state.coreThreadRunning := by
  rw [vacated]
  cases call.current <;> rfl

lemma numThreads_vacated (call : Call n) (time : ℕ) :
    (call.vacated time).numThreads = call.state.numThreads := by
  rw [vacated]
  cases call.current <;> rfl

lemma numThreads_placed (call : Call n) (time : ℕ) :
    (call.placed time).numThreads = call.state.numThreads := by
  rw [← numThreads_vacated call time, placed]
  cases call.selected time <;> rfl

lemma coreThreadRunning_placed (call : Call n) (time : ℕ) : (call.placed time).coreThreadRunning =
      update call.state.coreThreadRunning call.core (call.selected time) := by
  rw [← coreThreadRunning_vacated call time, placed]
  cases call.selected time <;> rfl

lemma sound_vacated (sound : Sound call.state) (time : ℕ) :
    Sound ((call.vacated time).setCoreThread call.core none) := by
  rw [vacated]
  cases current : call.current with
  | none =>
    refine sound.alike ?_ rfl rfl sound.runnable
    change update call.state.coreThreadRunning call.core none = _
    rw [← current]
    exact update_eq_self call.core call.state.coreThreadRunning
  | some thread =>
    let info : ThreadInfo n := { call.state.threadInfo thread with
      coreRunning := none
      lastScheduledOut := time + 1000 * call.core }
    have unlinked : Sound ((call.state.setInfo thread info).setCoreThread call.core none) :=
      sound.unlink current rfl
    exact unlinked.alike rfl rfl rfl unlinked.runnable

lemma coreRunning_vacated (idle : call.state.coreRunning thread = none) :
    (call.vacated time).coreRunning thread = none := by
  rw [vacated]
  cases call.current with
  | none => exact idle
  | some out =>
    change (call.state.setInfo out _).coreRunning thread = none
    rw [coreRunning_setInfo]
    by_cases same : thread = out
    · rw [same, update_self]
    · rw [update_of_ne same]
      exact idle

lemma created_selected (sound : Sound call.state) (new : call.selected time = some thread) :
    thread < call.state.numThreads :=
  sound.runnable thread (isCandidate_spec (selectThread_wins new).qualifies).1

lemma selected_waits (sound : Sound call.state) (moves : call.Moves time)
    (new : call.selected time = some thread) : call.state.coreRunning thread = none := by
  refine (isCandidate_spec (selectThread_wins new).qualifies).2.resolve_right fun runs => ?_
  refine moves.2 ?_
  rw [new]
  exact (sound.inverse call.core thread).mpr runs

lemma sound_placed (sound : Sound call.state) (moves : call.Moves time) :
    Sound (call.placed time) := by
  have empty := sound_vacated sound time
  rw [placed]
  cases new : call.selected time with
  | none => exact empty
  | some thread =>
    have created : thread < (call.vacated time).numThreads := by
      rw [numThreads_vacated]
      exact created_selected sound new
    have free : ((call.vacated time).setCoreThread call.core none).coreThreadRunning call.core =
        none := update_self _ _ _
    let info : ThreadInfo n := { (call.vacated time).threadInfo thread with
      coreRunning := some call.core
      lastScheduledIn := time }
    have filled : Sound ((((call.vacated time).setCoreThread call.core none).setCoreThread
        call.core (some thread)).setInfo thread info) :=
      empty.link created free (coreRunning_vacated (selected_waits sound moves new)) rfl
    refine filled.alike ?_ rfl rfl filled.runnable
    exact (update_idem _ _ _).symm

lemma findThread_of_lt {s : Pinned n} (created : thread < s.numThreads) :
    s.findThread thread = .ok s := if_pos created

lemma scheduleOut_eq (sound : Sound call.state) (hook : Pinned.Hook n) (time : ℕ) :
    (call.current.elim (.ok call.state) fun thread =>
      call.state.scheduleOut hook time call.core thread) = .ok (call.vacated time) := by
  rw [vacated]
  cases current : call.current with
  | none => rfl
  | some thread =>
    have runs := (sound.inverse call.core thread).mp current
    have created := sound.running thread (by simp [runs])
    let info : ThreadInfo n := { call.state.threadInfo thread with
      coreRunning := none
      lastScheduledOut := time + 1000 * call.core }
    show Pinned.moveThread hook thread none time (call.state.setInfo thread info) = _
    rw [Pinned.moveThread, findThread_of_lt (s := call.state.setInfo thread info) created]
    rfl

lemma rescheduleWith_moves {hook : Pinned.Hook n} (sound : Sound call.state)
    (moves : call.Moves time) :
    call.state.rescheduleWith hook time call.core =
      ((call.selected time).elim (.ok (call.placed time)) fun thread =>
        (call.placed time).moveThread hook thread (some call.core) time).map fun s =>
          s.setQuantumLeft call.core s.quantum := by
  have running : ¬ (call.current.elim false fun thread =>
      call.state.threads.status thread = .initializing) = true := by
    rw [← starting, moves.1]
    exact Bool.false_ne_true
  rw [Pinned.rescheduleWith]
  refine (if_neg running).trans ?_
  refine congrArg (Except.map fun s : Pinned n => s.setQuantumLeft call.core s.quantum) ?_
  refine (if_neg moves.2).trans ?_
  refine (congrArg (Except.bind · _) (scheduleOut_eq sound hook time)).trans ?_
  change (call.selected time).elim
    (Except.ok ((call.vacated time).setCoreThread call.core (call.selected time)))
    (fun thread => Pinned.scheduleIn hook time call.core thread
      ((call.vacated time).setCoreThread call.core (call.selected time))) = _
  rw [placed]
  cases new : call.selected time with
  | none => rfl
  | some thread =>
    have nowhere : (((call.vacated time).setCoreThread call.core (some thread)).threadInfo
        thread).coreRunning = none := coreRunning_vacated (selected_waits sound moves new)
    change Pinned.scheduleIn hook time call.core thread _ = _
    rw [Pinned.scheduleIn, nowhere]
    rfl

lemma rescheduleWith_stays (hook : Pinned.Hook n) (stays : ¬ call.Moves time) :
    call.state.rescheduleWith hook time call.core = .ok call.state ∨
      call.state.rescheduleWith hook time call.core =
        .ok (call.state.setQuantumLeft call.core call.state.quantum) := by
  rw [Pinned.rescheduleWith]
  split
  · exact .inl rfl
  next started =>
  have same : call.current = call.selected time :=
    not_not.mp fun different => stays ⟨Bool.eq_false_of_not_eq_true started, different⟩
  exact .inr (congrArg (Except.map _) (if_pos same))

end Call

/-! ## Rescheduling a core -/

def freeCores (running : Fin n → Option ThreadId) : ℕ :=
  (univ.filter fun core => running core = none).card

lemma freeCores_le (running : Fin n → Option ThreadId) : freeCores running ≤ n :=
  (card_filter_le _ _).trans (card_fin n).le

lemma freeCores_fill {running : Fin n → Option ThreadId} {core : Fin n}
    (free : running core = none) (thread : ThreadId) :
    freeCores (update running core (some thread)) < freeCores running := by
  refine card_lt_card ⟨?_, ?_⟩
  · intro other mem
    have same : other ≠ core := by
      rintro rfl
      simp at mem
    simpa [same] using mem
  · intro all
    have mem : core ∈ univ.filter fun core => running core = none := by simpa using free
    simpa using all mem

section Reschedule

variable {s : Pinned n} {hook : Pinned.Hook n} {time : ℕ} {core : Fin n} {thread : ThreadId}
  {bound : ℕ}

def Answers (hook : Pinned.Hook n) (bound : ℕ) : Prop :=
  ∀ thread time s, Sound s → thread < s.numThreads → freeCores s.coreThreadRunning ≤ bound →
    Keeps (hook thread time s)

lemma keeps_moveThread (answers : Answers hook bound) (sound : Sound s)
    (created : thread < s.numThreads) (few : freeCores s.coreThreadRunning ≤ bound) :
    Keeps (s.moveThread hook thread (some core) time) := by
  rw [Pinned.moveThread, findThread_of_lt created]
  refine Keeps.map ?_ fun s sound => sound.alike rfl rfl rfl sound.runnable
  split
  · have resumed : Sound { s with threads := s.threads.resumeThread thread none time false } :=
      sound.alike rfl rfl rfl sound.runnable
    exact answers thread time _ resumed created few
  · exact .ok sound

/-- The step of the induction over nested calls, which find fewer cores free. -/
lemma keeps_rescheduleWith (call : Call n) (answers : Answers hook bound)
    (sound : Sound call.state) (fits : ∀ thread, freeCores
      (update call.state.coreThreadRunning call.core (some thread)) ≤ bound) :
    Keeps (call.state.rescheduleWith hook time call.core) := by
  by_cases moves : call.Moves time
  · rw [rescheduleWith_moves sound moves]
    refine Keeps.map ?_ fun s sound => sound.setQuantumLeft call.core s.quantum
    cases new : call.selected time with
    | none => exact .ok (sound_placed sound moves)
    | some thread =>
      have created := created_selected sound new
      rw [← numThreads_placed call time] at created
      refine keeps_moveThread answers (sound_placed sound moves) created ?_
      rw [coreThreadRunning_placed, new]
      exact fits thread
  · rcases rescheduleWith_stays hook moves with stays | stays
    · rw [stays]
      exact .ok sound
    · rw [stays]
      exact .ok (sound.setQuantumLeft _ _)

lemma findFreeCore_spec (found : s.findFreeCoreForThread thread = some core) :
    s.coreThreadRunning core = none := by
  have test := List.find?_some found
  simp only [Bool.and_eq_true, Option.isNone_iff_eq_none] at test
  exact test.2

lemma answers_threadResumeWith {again : ℕ → Fin n → Pinned n → Except Fault (Pinned n)}
    (keeps : ∀ time core s, Sound s → s.coreThreadRunning core = none →
      freeCores s.coreThreadRunning ≤ bound → Keeps (again time core s)) :
    Answers (Pinned.threadResumeWith again) bound := by
  intro thread time s sound created few
  have runnable : Sound (s.setRunnable thread true) := sound.setRunnable fun _ => created
  rw [Pinned.threadResumeWith]
  cases found : (s.setRunnable thread true).findFreeCoreForThread thread with
  | none => exact .ok runnable
  | some core => exact keeps time core _ runnable (findFreeCore_spec found) few

lemma keeps_reschedule_free {depth : ℕ} (time : ℕ) (core : Fin n) (s : Pinned n)
    (sound : Sound s) (free : s.coreThreadRunning core = none)
    (enough : freeCores s.coreThreadRunning ≤ depth) : Keeps (s.reschedule depth time core) := by
  induction depth generalizing s time core with
  | zero =>
    have fewer := freeCores_fill free 0
    omega
  | succ depth ih =>
    refine keeps_rescheduleWith ⟨core, s⟩ (answers_threadResumeWith ih) sound fun thread => ?_
    exact Nat.le_of_lt_succ (Nat.lt_of_lt_of_le (freeCores_fill free thread) enough)

lemma keeps_rescheduleCore (sound : Sound s) (time : ℕ) (core : Fin n) :
    Keeps (s.rescheduleCore time core) :=
  keeps_rescheduleWith ⟨core, s⟩ (answers_threadResumeWith keeps_reschedule_free) sound
    fun _ => freeCores_le _

end Reschedule

/-! ## Calls -/

section Calls

variable {s : Pinned n} {thread : ThreadId} {time : ℕ}

lemma keeps_rescheduleFree (sound : Sound s) (time : ℕ) (thread : ThreadId) :
    Keeps (s.rescheduleFree time thread) := by
  rw [Pinned.rescheduleFree]
  cases s.findFreeCoreForThread thread with
  | none => exact .ok sound
  | some core => exact keeps_rescheduleCore sound time core

lemma keeps_rescheduleRunning (sound : Sound s) (time : ℕ) (thread : ThreadId) :
    Keeps (s.rescheduleRunning time thread) := by
  rw [Pinned.rescheduleRunning]
  cases (s.threadInfo thread).coreRunning with
  | none => exact .ok sound
  | some core => exact keeps_rescheduleCore sound time core

lemma coreRunning_addAffinity (cores : List (Fin n)) (info : ThreadInfo n) :
    (cores.foldl ThreadInfo.addAffinity info).coreRunning = info.coreRunning := by
  induction cores generalizing info with
  | nil => rfl
  | cons core cores ih => exact ih (info.addAffinity core)

lemma Sound.threadCreate (sound : Sound s) (created : thread < s.numThreads)
    (idle : s.coreRunning thread = none) (initialAffinity : List (Fin n)) :
    Sound (s.threadCreate initialAffinity thread) := by
  rw [Pinned.threadCreate]
  generalize affinity : (if (s.threadInfo thread).hasAffinity then s.threadInfo thread
    else initialAffinity.foldl ThreadInfo.addAffinity (s.threadInfo thread).clearAffinity) = info
  have same : info.coreRunning = s.coreRunning thread := by
    rw [← affinity]
    split
    · rfl
    · exact coreRunning_addAffinity _ _
  have pinned : Sound (s.setInfo thread info) := sound.setInfo same
  have waits : (s.setInfo thread info).coreRunning thread = none := by
    rw [coreRunning_setInfo, update_self, same, idle]
  split
  · next core found =>
    let placed : ThreadInfo n := { info with coreRunning := some core }
    have linked : Sound (((s.setInfo thread info).setCoreThread core (some thread)).setInfo thread
        placed) := pinned.link created (findFreeCore_spec found) waits rfl
    exact linked.alike rfl rfl rfl linked.runnable
  · exact pinned.setInfo waits.symm

lemma Sound.createThread (sound : Sound s) (initialAffinity : List (Fin n)) :
    Sound (s.createThread initialAffinity) := by
  have idle : s.coreRunning s.numThreads = none := by
    by_contra running
    exact Nat.lt_irrefl _ (sound.running _ running)
  have grown (threads : Threads) :
      Sound { s with numThreads := s.numThreads + 1, threads := threads } :=
    ⟨sound.inverse, fun thread running => Nat.lt_succ_of_lt (sound.running thread running),
      fun thread runnable => Nat.lt_succ_of_lt (sound.runnable thread runnable)⟩
  exact (grown _).threadCreate (Nat.lt_succ_self _) idle initialAffinity

lemma keeps_threadYield (sound : Sound s) (clock : Fin n → ℕ) (thread : ThreadId) :
    Keeps (s.threadYield clock thread) := by
  rw [Pinned.threadYield]
  cases (s.threadInfo thread).coreRunning with
  | none => exact .ok sound
  | some core =>
    refine (keeps_rescheduleCore (sound.setQuantumLeft core 0) (clock core) core).bind ?_
    intro s sound
    split
    · exact .ok sound
    · exact keeps_rescheduleFree sound (clock core) thread

lemma keeps_addMask {mask : List ℕ} (valid : ∀ cpu ∈ mask, cpu < n) (sound : Sound s) :
    Keeps (s.addMask thread mask) := by
  induction mask generalizing s with
  | nil => exact .ok sound
  | cons cpu mask ih =>
    rw [Pinned.addMask, dif_pos (valid cpu List.mem_cons_self)]
    exact ih (fun cpu mem => valid cpu (List.mem_cons_of_mem _ mem)) (sound.setInfo rfl)

variable {mask : Option (List ℕ)}

lemma keeps_setAffinity
    (valid : ∀ cpus, mask = some cpus → ∀ cpu ∈ cpus, cpu < n) (sound : Sound s) :
    Keeps (s.setAffinity thread mask) := by
  have marked : Sound (s.setInfo thread { s.threadInfo thread with explicitAffinity := true }) :=
    sound.setInfo rfl
  cases mask with
  | none => exact .ok (marked.setInfo (coreRunning_addAffinity _ _))
  | some cpus => exact keeps_addMask (valid cpus rfl) (marked.setInfo rfl)

lemma keeps_threadSetAffinity
    (valid : ∀ cpus, mask = some cpus → ∀ cpu ∈ cpus, cpu < n) (sound : Sound s)
    (clock : Fin n → ℕ) (globalTime : ℕ) (callingThread : Option ThreadId) :
    Keeps (s.threadSetAffinity clock globalTime callingThread thread mask) := by
  refine (keeps_setAffinity valid sound).bind fun s sound => ?_
  split
  · exact .ok sound
  split
  · exact keeps_threadYield sound clock thread
  split
  · split
    · exact .ok sound
    · exact .ok (sound.setQuantumLeft _ 0)
  · split
    · cases s.findFreeCoreForThread thread with
      | none => exact .ok sound
      | some core => exact keeps_rescheduleCore sound _ core
    · exact .ok sound

lemma keeps_threadStart (created : thread < s.numThreads) (sound : Sound s) (time : ℕ) :
    Keeps (s.threadStart thread time) := by
  have room : Sound (s.makeRoom thread) := sound.alike rfl rfl rfl sound.runnable
  rw [Pinned.threadStart, findThread_of_lt created]
  exact keeps_rescheduleFree (room.setRunnable fun _ => created) time thread

lemma keeps_threadStall (sound : Sound s) (reason : StallType) (time : ℕ) :
    Keeps (s.threadStall thread reason time) := by
  rw [Pinned.threadStall]
  split
  · exact .ok sound
  · exact keeps_rescheduleRunning (sound.setRunnable (by simp)) time thread

lemma keeps_threadResume (created : thread < s.numThreads) (sound : Sound s) (time : ℕ) :
    Keeps (s.threadResume thread time) := by
  have answers : Answers (Pinned.threadResumeWith Pinned.rescheduleCore : Pinned.Hook n) n :=
    answers_threadResumeWith fun time core s sound _ _ => keeps_rescheduleCore sound time core
  rw [Pinned.threadResume, findThread_of_lt created]
  exact answers thread time s sound created (freeCores_le _)

lemma keeps_periodicLoop (sound : Sound s) (time : ℕ) (cores : List (Fin n)) :
    Keeps (s.periodicLoop time cores) := by
  induction cores generalizing s with
  | nil => exact .ok sound
  | cons core cores ih =>
    rw [Pinned.periodicLoop]
    refine Keeps.bind ?_ fun s sound => ih sound
    rw [Pinned.periodicCore]
    split
    · exact keeps_rescheduleCore sound time core
    · exact .ok (sound.setQuantumLeft core _)

end Calls

/-! ## Runs -/

/-- The call is about a thread that was created, and names cores that exist. -/
def Valid (s : Pinned n) : Event n → Prop
  | .start thread _ => thread < s.numThreads
  | .resume thread _ => thread < s.numThreads
  | .setAffinity _ _ _ _ mask => ∀ cpus, mask = some cpus → ∀ cpu ∈ cpus, cpu < n
  | _ => True

variable {event : Event n}

lemma Sound.handle {s : Pinned n} (sound : Sound s) (valid : Valid s event) :
    Keeps (s.handle event) := by
  cases event with
  | threads threads threadCore => exact .ok (sound.alike rfl rfl rfl sound.runnable)
  | create initialAffinity => exact .ok (sound.createThread initialAffinity)
  | start thread time => exact keeps_threadStart valid sound time
  | stall thread reason time => exact keeps_threadStall sound reason time
  | resume thread time => exact keeps_threadResume valid sound time
  | exit thread time => exact keeps_rescheduleRunning (sound.setRunnable (by simp)) time thread
  | yield clock thread => exact keeps_threadYield sound clock thread
  | setAffinity clock globalTime callingThread thread mask =>
    exact keeps_threadSetAffinity valid sound clock globalTime callingThread
  | periodic time =>
    exact (keeps_periodicLoop sound time _).map fun s sound =>
      sound.alike rfl rfl rfl sound.runnable

lemma addMask_fails {s : Pinned n} {thread : ThreadId} {mask : List ℕ}
    (invalid : ¬ ∀ cpu ∈ mask, cpu < n) : s.addMask thread mask = .error .invalidCore := by
  induction mask generalizing s with
  | nil => exact absurd (by simp) invalid
  | cons cpu mask ih =>
    rw [Pinned.addMask]
    split
    · next here =>
      refine ih fun rest => invalid fun other mem => ?_
      rcases List.mem_cons.mp mem with rfl | mem
      · exact here
      · exact rest other mem
    · rfl

lemma handle_invalid {s : Pinned n} (invalid : ¬ Valid s event) :
    ∃ fault, s.handle event = .error fault := by
  cases event with
  | start thread time =>
    have failed : s.findThread thread = .error .invalidThread := if_neg invalid
    rw [Pinned.handle, Pinned.threadStart, failed]
    exact ⟨_, rfl⟩
  | resume thread time =>
    have failed : s.findThread thread = .error .invalidThread := if_neg invalid
    rw [Pinned.handle, Pinned.threadResume, failed]
    exact ⟨_, rfl⟩
  | setAffinity clock globalTime callingThread thread mask =>
    cases mask with
    | none => exact absurd (by rintro _ ⟨⟩) invalid
    | some cpus =>
      have fails : s.setAffinity thread (some cpus) = .error .invalidCore := by
        refine addMask_fails fun valid => invalid ?_
        rintro _ ⟨⟩
        exact valid
      rw [Pinned.handle, Pinned.threadSetAffinity, fails]
      exact ⟨_, rfl⟩
  | _ => exact absurd trivial invalid

lemma sound_step {state : Except Fault (Pinned n)}
    (sound : ∀ s, state = .ok s → Sound s) : ∀ s, step state event = .ok s → Sound s := by
  intro after ran
  obtain ⟨s, rfl, handled⟩ := bind_eq_ok.mp ran
  by_cases valid : Valid s event
  · obtain ⟨s', returned, kept⟩ := (sound s rfl).handle valid
    cases returned.symm.trans handled
    exact kept
  · obtain ⟨fault, failed⟩ := handle_invalid valid
    cases failed.symm.trans handled

/-- The maps are inverse to each other, so no thread is on two cores and no two threads are on
one. The next valid call returns. -/
structure Correct (s : Pinned n) : Prop where
  inverse : ∀ core thread, s.coreThreadRunning core = some thread ↔
    (s.threadInfo thread).coreRunning = some core
  oneCore : ∀ core core' thread, s.coreThreadRunning core = some thread →
    s.coreThreadRunning core' = some thread → core = core'
  oneThread : ∀ thread thread' core, (s.threadInfo thread).coreRunning = some core →
    (s.threadInfo thread').coreRunning = some core → thread = thread'
  returns : ∀ event, Valid s event → ∃ s', s.handle event = .ok s'

/-- In every run, after every call, each core has the thread that runs on it and each thread the
core that it runs on. -/
theorem pinned_correct (quantum : ℕ) (events : List (Event n)) :
    Runs.Throughout step (fun state => ∀ s : Pinned n, state = .ok s → Correct s)
      (.ok (.start quantum)) events := by
  refine Runs.throughout_invariant (I := fun state => ∀ s : Pinned n, state = .ok s → Sound s)
    ?_ ?_ ?_ events
  · exact fun state event sound => sound_step sound
  · intro state sound s same
    have inverse := (sound s same).inverse
    refine ⟨inverse, fun _ _ _ => inverse.left_unique, fun _ _ _ => inverse.right_unique,
      fun event valid => ?_⟩
    obtain ⟨s', returned, -⟩ := (sound s same).handle valid
    exact ⟨s', returned⟩
  · rintro s ⟨⟩
    exact .start quantum

end Sniper.Scheduler
