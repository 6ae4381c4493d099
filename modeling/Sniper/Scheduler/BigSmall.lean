import Mathlib.Data.List.GetD
import Mathlib.Data.Set.Card
import Sniper.Scheduler.Frame

/-!
# The big-small scheduler

`SchedulerBigSmall` marks as many threads as there are big cores, and gives them an affinity to the
big cores; the other threads are kept on the small ones. When a marked thread stalls or ends another
one is picked at random, and from time to time all of them are. A thread that stalls is marked until
its successor is picked, and a thread that has ended keeps its mark until the next reshuffle.
-/

namespace Sniper.Scheduler

open Sniper.System Fallible Function Returns List

variable {n : ℕ} {ρ : Type}

/-- Which cores have the tag "big", and the random number generator. -/
structure Hardware (n : ℕ) (ρ : Type) where
  big : Fin n → Bool
  nextRandom : ρ → ℕ × ρ

namespace Hardware

def bigCores (hw : Hardware n ρ) : List (Fin n) := (finRange n).filter hw.big

def numBigCores (hw : Hardware n ρ) : ℕ := hw.bigCores.length

/-- `m_mask_big` or `m_mask_small`. -/
def mask (hw : Hardware n ρ) (big : Bool) : List ℕ :=
  ((finRange n).filter fun core => hw.big core = big).map Fin.val

end Hardware

structure BigSmall (n : ℕ) (ρ : Type) where
  pinned : Pinned n
  isBig : ThreadId → Bool
  lastReshuffle : ℕ
  rng : ρ
  /-- The threads that have ended. -/
  exited : ThreadId → Bool

/-- What a call finds: the clocks of the cores and the global time. -/
structure Input (n : ℕ) where
  clock : Fin n → ℕ
  globalTime : ℕ
  event : Event n

namespace BigSmall

def start (quantum : ℕ) (rng : ρ) : BigSmall n ρ where
  pinned := .start quantum
  isBig := fun _ => false
  lastReshuffle := 0
  rng := rng
  exited := fun _ => false

def lift (f : Pinned n → Except Fault (Pinned n)) (s : BigSmall n ρ) :
    Except Fault (BigSmall n ρ) :=
  (f s.pinned).map fun pinned => { s with pinned := pinned }

section Calls

variable (hw : Hardware n ρ) (input : Input n)

/-- `moveToBig` or `moveToSmall`. -/
def moveTo (big : Bool) (thread : ThreadId) (s : BigSmall n ρ) : Except Fault (BigSmall n ρ) :=
  (s.lift (Pinned.threadSetAffinity input.clock input.globalTime none thread
    (some (hw.mask big)))).map fun s => { s with isBig := update s.isBig thread big }

def eligible (s : BigSmall n ρ) : List ThreadId :=
  (range s.pinned.numThreads).filter fun thread =>
    s.isBig thread = false && s.pinned.threadsRunnable thread

def pickBigThread (s : BigSmall n ρ) : Except Fault (BigSmall n ρ) :=
  if s.eligible.length > 0 then
    let random := hw.nextRandom s.rng
    moveTo hw input true (s.eligible.getD (random.1 % s.eligible.length) 0)
      { s with rng := random.2 }
  else .ok s

/-- `threadCreate`: a thread without affinity starts on the small cores. -/
def createThread (s : BigSmall n ρ) : Except Fault (BigSmall n ρ) :=
  let thread := s.pinned.numThreads
  let s := { s with pinned := { s.pinned with
    numThreads := s.pinned.numThreads + 1
    threads := { s.pinned.threads with
      status := update s.pinned.threads.status thread .initializing } } }
  (if (s.pinned.threadInfo thread).hasAffinity then .ok s
    else moveTo hw input false thread s).map fun s =>
      { s with pinned := s.pinned.threadCreate [] thread }

/-- `__threadStall`: the thread's successor is picked before the thread loses its mark. -/
def threadStall (thread : ThreadId) (reason : StallType) (time : ℕ) (s : BigSmall n ρ) :
    Except Fault (BigSmall n ρ) :=
  if reason = .unscheduled then .ok s
  else
    let s := { s with pinned := s.pinned.setRunnable thread false }
    (if s.isBig thread then
      (pickBigThread hw input s).bind fun s => moveTo hw input false thread s
    else .ok s).bind fun s => s.lift (Pinned.rescheduleRunning time thread)

/-- `__threadExit`: the thread keeps its mark. -/
def threadExit (thread : ThreadId) (time : ℕ) (s : BigSmall n ρ) : Except Fault (BigSmall n ρ) :=
  let s := { s with pinned := s.pinned.setRunnable thread false }
  ((if s.isBig thread then pickBigThread hw input s else .ok s).bind fun s =>
    s.lift (Pinned.rescheduleRunning time thread)).map fun s =>
      { s with exited := update s.exited thread true }

def demote : List ThreadId → BigSmall n ρ → Except Fault (BigSmall n ρ)
  | [], s => .ok s
  | thread :: threads, s =>
    (if s.isBig thread then moveTo hw input false thread s else .ok s).bind (demote threads)

def promote : ℕ → BigSmall n ρ → Except Fault (BigSmall n ρ)
  | 0, s => .ok s
  | count + 1, s => (pickBigThread hw input s).bind (promote count)

def reshuffle (time : ℕ) (s : BigSmall n ρ) : Except Fault (BigSmall n ρ) :=
  ((demote hw input (range s.pinned.numThreads) s).bind fun s =>
    promote hw input (min hw.numBigCores s.pinned.numThreads) s).map fun s =>
      { s with lastReshuffle := time }

def periodic (time : ℕ) (s : BigSmall n ρ) : Except Fault (BigSmall n ρ) :=
  (if time > s.lastReshuffle + s.pinned.quantum then reshuffle hw input time s else .ok s).bind
    fun s => s.lift (Pinned.periodic time)

/-- The scheduler gives new threads an affinity of its own, whatever the event says. -/
def handle (s : BigSmall n ρ) : Except Fault (BigSmall n ρ) :=
  match input.event with
  | .create _ => createThread hw input s
  | .stall thread reason time => threadStall hw input thread reason time s
  | .exit thread time => threadExit hw input thread time s
  | .periodic time => periodic hw input time s
  | event => s.lift fun pinned => pinned.handle event

end Calls

def step (hw : Hardware n ρ) (state : Except Fault (BigSmall n ρ)) (input : Input n) :
    Except Fault (BigSmall n ρ) :=
  state.bind (handle hw input)

def bigThreads (s : BigSmall n ρ) : Set ThreadId :=
  {thread | s.isBig thread = true ∧ s.exited thread = false}

/-! ## Marks -/

structure Remarks (s s' : BigSmall n ρ) : Prop where
  sound : Sound s'.pinned
  numThreads : s'.pinned.numThreads = s.pinned.numThreads
  exited : s'.exited = s.exited

lemma Remarks.refl {s : BigSmall n ρ} (sound : Sound s.pinned) : Remarks s s := ⟨sound, rfl, rfl⟩

lemma Remarks.trans {s s' s'' : BigSmall n ρ} (first : Remarks s s') (second : Remarks s' s'') :
    Remarks s s'' :=
  ⟨second.sound, second.numThreads.trans first.numThreads, second.exited.trans first.exited⟩

def Picks (s s' : BigSmall n ρ) : Prop :=
  s'.isBig = s.isBig ∨
    ∃ thread, thread < s.pinned.numThreads ∧ s'.isBig = update s.isBig thread true

section Marks

variable {hw : Hardware n ρ} {input : Input n} {s s' : BigSmall n ρ} {thread : ThreadId}

lemma returns_lift {f : Pinned n → Except Fault (Pinned n)} (keeps : Keeps (f s.pinned))
    (number : Ensures (f s.pinned) fun pinned => pinned.numThreads = s.pinned.numThreads) :
    Returns (s.lift f) fun s' => Remarks s s' ∧ s'.isBig = s.isBig := by
  have returned : Returns (f s.pinned) fun pinned =>
      Sound pinned ∧ pinned.numThreads = s.pinned.numThreads := and keeps number
  exact returned.map fun pinned held => ⟨⟨held.1, held.2, rfl⟩, rfl⟩

lemma mask_valid (hw : Hardware n ρ) (big : Bool) :
    ∀ cpus, some (hw.mask big) = some cpus → ∀ cpu ∈ cpus, cpu < n := by
  rintro _ ⟨⟩ cpu mem
  obtain ⟨core, -, rfl⟩ := mem_map.mp mem
  exact core.isLt

lemma returns_moveTo (sound : Sound s.pinned) (big : Bool) (thread : ThreadId) :
    Returns (moveTo hw input big thread s) fun s' =>
      Remarks s s' ∧ s'.isBig = update s.isBig thread big := by
  have keeps : Keeps (s.pinned.threadSetAffinity input.clock input.globalTime none thread
      (some (hw.mask big))) :=
    keeps_threadSetAffinity (mask_valid hw big) sound input.clock input.globalTime none
  have marks := threadSetAffinity_marks input.clock input.globalTime none thread
    (some (hw.mask big)) s.pinned
  have returned : Returns _ fun pinned : Pinned n => Sound pinned ∧ Marks _ _ s.pinned pinned :=
    and keeps marks
  refine map (P := fun s' => Remarks s s' ∧ s'.isBig = s.isBig) ?_ fun s' held => ?_
  · exact returned.map fun pinned held => ⟨⟨held.1, held.2.numThreads, rfl⟩, rfl⟩
  · refine ⟨⟨held.1.sound, held.1.numThreads, held.1.exited⟩, ?_⟩
    exact congrArg (update · thread big) held.2

lemma moveTo_idle (big : Bool) (idle : s.pinned.coreRunning thread = none)
    (waits : s.pinned.threadsRunnable thread = false) :
    Ensures (moveTo hw input big thread s) fun s' => s'.pinned.coreRunning thread = none := by
  intro s' ran
  obtain ⟨lifted, lifts, rfl⟩ := map_eq_ok.mp ran
  obtain ⟨pinned, sets, rfl⟩ := map_eq_ok.mp lifts
  exact threadSetAffinity_idle input.clock input.globalTime _ idle waits pinned sets

lemma returns_pickBigThread (sound : Sound s.pinned) :
    Returns (pickBigThread hw input s) fun s' => Remarks s s' ∧ Picks s s' := by
  rw [pickBigThread]
  split
  · next some =>
    let random := hw.nextRandom s.rng
    let next : BigSmall n ρ := { s with rng := random.2 }
    have inside : random.1 % s.eligible.length < s.eligible.length := Nat.mod_lt _ some
    have mem : s.eligible.getD (random.1 % s.eligible.length) 0 ∈ s.eligible := by
      rw [getD_eq_getElem _ _ inside]
      exact getElem_mem inside
    have created := mem_range.mp (mem_of_mem_filter mem)
    refine mono (returns_moveTo (s := next) sound true _) fun s' held => ?_
    exact ⟨⟨held.1.sound, held.1.numThreads, held.1.exited⟩, .inr ⟨_, created, held.2⟩⟩
  · exact .ok ⟨.refl sound, .inl rfl⟩

lemma returns_demote (threads : List ThreadId) (sound : Sound s.pinned) :
    Returns (demote hw input threads s) fun s' => Remarks s s' ∧
      ∀ thread, s'.isBig thread = true → s.isBig thread = true ∧ thread ∉ threads := by
  induction threads generalizing s with
  | nil => exact .ok ⟨.refl sound, fun thread marked => ⟨marked, not_mem_nil⟩⟩
  | cons first threads ih =>
    have moved : Returns (if s.isBig first then moveTo hw input false first s else .ok s)
        fun s' => Remarks s s' ∧
          ∀ thread, s'.isBig thread = true → s.isBig thread = true ∧ thread ≠ first := by
      split
      · refine (returns_moveTo sound false first).mono fun s' held => ⟨held.1, ?_⟩
        intro thread marked
        rw [held.2] at marked
        by_cases same : thread = first
        · rw [same, update_self] at marked
          cases marked
        · rw [update_of_ne same] at marked
          exact ⟨marked, same⟩
      · next small =>
        exact .ok ⟨.refl sound, fun thread marked => ⟨marked, fun same => small (same ▸ marked)⟩⟩
    refine moved.bind fun s' held => (ih held.1.sound).mono fun s'' rest =>
      ⟨held.1.trans rest.1, fun thread marked => ?_⟩
    obtain ⟨before, notLater⟩ := rest.2 thread marked
    obtain ⟨first, notHere⟩ := held.2 thread before
    exact ⟨first, not_mem_cons_of_ne_of_not_mem notHere notLater⟩

end Marks

/-! ## The number of marked threads -/

section Number

variable {hw : Hardware n ρ} {input : Input n} {s s' : BigSmall n ρ} {thread : ThreadId}

lemma Picks.within (picks : Picks s s') (same : s'.exited = s.exited) :
    ∃ thread, s'.bigThreads ⊆ insert thread s.bigThreads := by
  obtain unmarked | ⟨thread, -, marked⟩ := picks
  · refine ⟨0, fun other mem => Or.inr ?_⟩
    rw [bigThreads, unmarked, same] at mem
    exact mem
  · refine ⟨thread, fun other mem => ?_⟩
    rw [bigThreads, marked, same] at mem
    by_cases here : other = thread
    · exact .inl here
    · have before : s.isBig other = true := by
        rw [← update_of_ne here true s.isBig]
        exact mem.1
      exact .inr ⟨before, mem.2⟩

lemma Picks.encard_le (picks : Picks s s') (same : s'.exited = s.exited) :
    s'.bigThreads.encard ≤ s.bigThreads.encard + 1 := by
  obtain ⟨thread, inside⟩ := picks.within same
  exact (Set.encard_le_encard inside).trans (Set.encard_insert_le _ _)

lemma Picks.exchange (picks : Picks s s') (same : s'.exited = s.exited)
    (marked : thread ∈ s.bigThreads) {left : Set ThreadId}
    (leaves : left ⊆ s'.bigThreads \ {thread}) : left.encard ≤ s.bigThreads.encard := by
  obtain ⟨added, inside⟩ := picks.within same
  have bound : left ⊆ insert added s.bigThreads \ {thread} :=
    leaves.trans (Set.sdiff_subset_sdiff_left inside)
  by_cases new : added ∈ s.bigThreads
  · rw [Set.insert_eq_of_mem new] at bound
    exact Set.encard_le_encard (bound.trans Set.sdiff_subset)
  · exact (Set.encard_le_encard bound).trans (Set.encard_exchange' new marked).le

structure Bounded (hw : Hardware n ρ) (s : BigSmall n ρ) : Prop where
  sound : Sound s.pinned
  created : ∀ thread, s.isBig thread = true → thread < s.pinned.numThreads
  few : s.bigThreads.encard ≤ hw.numBigCores

lemma Picks.created (picks : Picks s s')
    (created : ∀ thread, s.isBig thread = true → thread < s.pinned.numThreads) :
    ∀ thread, s'.isBig thread = true → thread < s.pinned.numThreads := by
  intro other marked
  obtain same | ⟨thread, new, same⟩ := picks
  · exact created other (same ▸ marked)
  · rw [same] at marked
    by_cases here : other = thread
    · exact here ▸ new
    · exact created other (by rwa [update_of_ne here] at marked)

lemma Bounded.remarks (bounded : Bounded hw s) (remarks : Remarks s s')
    (same : s'.isBig = s.isBig) : Bounded hw s' where
  sound := remarks.sound
  created := by
    rw [same, remarks.numThreads]
    exact bounded.created
  few := by
    rw [bigThreads, same, remarks.exited]
    exact bounded.few

lemma Bounded.lift (bounded : Bounded hw s) {f : Pinned n → Except Fault (Pinned n)}
    (keeps : Keeps (f s.pinned))
    (number : Ensures (f s.pinned) fun pinned => pinned.numThreads = s.pinned.numThreads) :
    Returns (s.lift f) (Bounded hw) :=
  (returns_lift keeps number).mono fun _ held => bounded.remarks held.1 held.2

lemma returns_promote (count : ℕ) (sound : Sound s.pinned)
    (created : ∀ thread, s.isBig thread = true → thread < s.pinned.numThreads) :
    Returns (promote hw input count s) fun s' => Sound s'.pinned ∧
      (∀ thread, s'.isBig thread = true → thread < s'.pinned.numThreads) ∧
      s'.bigThreads.encard ≤ s.bigThreads.encard + count := by
  induction count generalizing s with
  | zero => exact .ok ⟨sound, created, by simp⟩
  | succ count ih =>
    refine (returns_pickBigThread sound).bind fun s' held => ?_
    obtain ⟨remarks, picks⟩ := held
    have created' : ∀ thread, s'.isBig thread = true → thread < s'.pinned.numThreads := by
      rw [remarks.numThreads]
      exact picks.created created
    refine (ih remarks.sound created').mono fun s'' rest => ⟨rest.1, rest.2.1, ?_⟩
    calc s''.bigThreads.encard ≤ s'.bigThreads.encard + count := rest.2.2
      _ ≤ s.bigThreads.encard + 1 + count := by
        gcongr
        exact picks.encard_le remarks.exited
      _ = s.bigThreads.encard + (count + 1 : ℕ) := by
        push_cast
        rw [add_assoc, add_comm 1]

section

variable (bounded : Bounded hw s)

include bounded

lemma Bounded.reshuffle (time : ℕ) : Returns (reshuffle hw input time s) (Bounded hw) := by
  have demoted : Returns (demote hw input (range s.pinned.numThreads) s) fun s' =>
      Sound s'.pinned ∧ ∀ thread, s'.isBig thread = false := by
    refine (returns_demote _ bounded.sound).mono fun s' held => ⟨held.1.sound, fun thread => ?_⟩
    refine Bool.eq_false_of_not_eq_true fun marked => ?_
    obtain ⟨before, outside⟩ := held.2 thread marked
    exact outside (mem_range.mpr (bounded.created thread before))
  refine (demoted.bind fun s' held => ?_).map fun s'' held => held
  obtain ⟨sound, unmarked⟩ := held
  have none : s'.bigThreads.encard = 0 := by
    rw [Set.encard_eq_zero]
    exact Set.eq_empty_of_forall_notMem fun thread mem => by
      rw [bigThreads, Set.mem_ofPred_eq, unmarked thread] at mem
      exact Bool.false_ne_true mem.1
  refine (returns_promote _ sound fun thread marked => ?_).mono fun s'' held => ?_
  · rw [unmarked thread] at marked
    cases marked
  · refine ⟨held.1, held.2.1, held.2.2.trans ?_⟩
    rw [none, zero_add]
    exact_mod_cast min_le_left ..

lemma Bounded.createThread : Returns (createThread hw input s) (Bounded hw) := by
  let thread := s.pinned.numThreads
  let next : BigSmall n ρ := { s with pinned := { s.pinned with
    numThreads := s.pinned.numThreads + 1
    threads := { s.pinned.threads with
      status := update s.pinned.threads.status thread .initializing } } }
  have sound : Sound next.pinned :=
    ⟨bounded.sound.inverse,
      fun thread running => Nat.lt_succ_of_lt (bounded.sound.running thread running),
      fun thread runnable => Nat.lt_succ_of_lt (bounded.sound.runnable thread runnable)⟩
  have idle : next.pinned.coreRunning thread = none := by
    by_contra running
    exact Nat.lt_irrefl _ (bounded.sound.running _ running)
  have waits : next.pinned.threadsRunnable thread = false := by
    refine Bool.eq_false_of_not_eq_true fun runnable => ?_
    exact Nat.lt_irrefl _ (bounded.sound.runnable _ runnable)
  have unmarked : s.isBig thread = false :=
    Bool.eq_false_of_not_eq_true fun marked => Nat.lt_irrefl _ (bounded.created _ marked)
  have moved : Returns (if (next.pinned.threadInfo thread).hasAffinity then .ok next
      else moveTo hw input false thread next) fun s' =>
        (Remarks next s' ∧ s'.isBig = s.isBig) ∧ s'.pinned.coreRunning thread = none := by
    split
    · exact .ok ⟨⟨.refl sound, rfl⟩, idle⟩
    · refine ((returns_moveTo sound false thread).and (moveTo_idle false idle waits)).mono ?_
      intro s' held
      refine ⟨⟨held.1.1, held.1.2.trans ?_⟩, held.2⟩
      rw [← unmarked]
      exact update_eq_self thread s.isBig
  refine moved.map fun s' held => ?_
  obtain ⟨⟨remarks, same⟩, idle'⟩ := held
  have here : thread < s'.pinned.numThreads := by
    rw [remarks.numThreads]
    exact Nat.lt_succ_self _
  have more := (spares_threadCreate [] thread s'.pinned).numThreads
  refine ⟨remarks.sound.threadCreate here idle' [], fun other marked => ?_, ?_⟩
  · have before : s.isBig other = true := (congrFun same other).symm.trans marked
    exact Nat.lt_of_lt_of_le ((bounded.created other before).trans here) more
  · have sameThreads : bigThreads { s' with pinned := s'.pinned.threadCreate [] thread } =
        s.bigThreads := by
      rw [bigThreads, bigThreads, same, remarks.exited]
    rw [sameThreads]
    exact bounded.few

lemma Bounded.setRunnable (thread : ThreadId) :
    Bounded hw { s with pinned := s.pinned.setRunnable thread false } :=
  ⟨bounded.sound.setRunnable (by simp), bounded.created, bounded.few⟩

lemma Bounded.replace (marked : s.isBig thread = true) (alive : s.exited thread = false) :
    Returns ((pickBigThread hw input s).bind fun s => moveTo hw input false thread s)
      (Bounded hw) := by
  refine (returns_pickBigThread bounded.sound).bind fun s' held => ?_
  obtain ⟨remarks, picks⟩ := held
  refine (returns_moveTo remarks.sound false thread).mono fun s'' held => ?_
  obtain ⟨remarks', same⟩ := held
  have fewer : ∀ other, s''.isBig other = true → s'.isBig other = true ∧ other ≠ thread := by
    intro other still
    rw [same] at still
    by_cases here : other = thread
    · rw [here, update_self] at still
      cases still
    · exact ⟨by rwa [update_of_ne here] at still, here⟩
  refine ⟨remarks'.sound, fun other still => ?_, ?_⟩
  · rw [remarks'.numThreads, remarks.numThreads]
    exact picks.created bounded.created other (fewer other still).1
  · refine (picks.exchange remarks.exited ⟨marked, alive⟩ fun other mem => ?_).trans bounded.few
    obtain ⟨before, away⟩ := fewer other mem.1
    exact ⟨⟨before, (congrFun remarks'.exited other).symm.trans mem.2⟩, away⟩

lemma Bounded.threadStall (alive : s.exited thread = false) (reason : StallType) (time : ℕ) :
    Returns (threadStall hw input thread reason time s) (Bounded hw) := by
  rw [BigSmall.threadStall]
  split
  · exact .ok bounded
  · refine bind (P := Bounded hw) ?_ fun s' bounded' =>
      bounded'.lift (keeps_rescheduleRunning bounded'.sound time thread)
        ((kept_rescheduleRunning time thread _).mono fun _ kept => kept.numThreads)
    split
    · next marked => exact (bounded.setRunnable thread).replace marked alive
    · exact .ok (bounded.setRunnable thread)

lemma Bounded.threadExit (alive : s.exited thread = false) (time : ℕ) :
    Returns (threadExit hw input thread time s) (Bounded hw) := by
  let next : BigSmall n ρ := { s with pinned := s.pinned.setRunnable thread false }
  have stopped : Bounded hw next := bounded.setRunnable thread
  -- the thread still counts while its core is rescheduled
  have picked : Returns (if next.isBig thread then pickBigThread hw input next else .ok next)
      fun s' => Remarks next s' ∧ Picks next s' ∧
        (s.isBig thread = false → s'.isBig = s.isBig) := by
    split
    · next marked =>
      exact (returns_pickBigThread stopped.sound).mono fun s' held =>
        ⟨held.1, held.2, fun unmarked => by cases unmarked.symm.trans marked⟩
    · exact .ok ⟨.refl stopped.sound, .inl rfl, fun _ => rfl⟩
  have moved : Returns ((if next.isBig thread then pickBigThread hw input next
      else .ok next).bind fun s => s.lift (Pinned.rescheduleRunning time thread))
      fun s' => Remarks next s' ∧ Picks next s' ∧
        (s.isBig thread = false → s'.isBig = s.isBig) := by
    refine picked.bind fun s' held => ?_
    have lifts := returns_lift (keeps_rescheduleRunning held.1.sound time thread)
      ((kept_rescheduleRunning time thread _).mono fun _ kept => kept.numThreads)
    refine lifts.mono fun s'' lifted => ?_
    rw [Picks, lifted.2]
    exact ⟨held.1.trans lifted.1, held.2⟩
  refine moved.map fun s' held => ?_
  obtain ⟨remarks, picks, same⟩ := held
  have created : ∀ other, s'.isBig other = true → other < s'.pinned.numThreads := by
    rw [remarks.numThreads]
    exact picks.created stopped.created
  have left : bigThreads { s' with exited := update s'.exited thread true } ⊆
      s'.bigThreads \ {thread} := by
    rintro other ⟨marked, still⟩
    by_cases here : other = thread
    · rw [here] at still
      simp at still
    · exact ⟨⟨marked, by simpa [here] using still⟩, here⟩
  refine ⟨remarks.sound, created, ?_⟩
  cases marked : s.isBig thread with
  | true => exact (picks.exchange remarks.exited ⟨marked, alive⟩ left).trans stopped.few
  | false =>
    have fewer : s'.bigThreads = s.bigThreads := by
      rw [bigThreads, same marked, remarks.exited]
      rfl
    exact (Set.encard_le_encard (left.trans (Set.sdiff_subset.trans fewer.subset))).trans
      bounded.few

lemma Bounded.periodic (time : ℕ) : Returns (periodic hw input time s) (Bounded hw) := by
  refine bind (P := Bounded hw) ?_ fun s' bounded' => bounded'.lift
    ((keeps_periodicLoop bounded'.sound time _).map fun s sound =>
      sound.alike rfl rfl rfl sound.runnable)
    ((kept_periodic time _).mono fun _ kept => kept.numThreads)
  split
  · exact bounded.reshuffle time
  · exact .ok bounded

end

def Alive (s : BigSmall n ρ) : Event n → Prop
  | .stall thread _ _ => s.exited thread = false
  | .exit thread _ => s.exited thread = false
  | _ => True

lemma Bounded.inherited (bounded : Bounded hw s) {event : Event n}
    (other : ∀ cores, event ≠ .create cores) (valid : Valid s.pinned event) :
    Returns (s.lift fun pinned => pinned.handle event) (Bounded hw) :=
  bounded.lift (bounded.sound.handle valid) (handle_numThreads other)

lemma Bounded.handle (bounded : Bounded hw s) (alive : s.Alive input.event)
    (valid : Valid s.pinned input.event) : Returns (handle hw input s) (Bounded hw) := by
  rw [BigSmall.handle]
  cases event : input.event with
  | create initialAffinity => exact bounded.createThread
  | stall thread reason time =>
    rw [event] at alive
    exact bounded.threadStall alive reason time
  | exit thread time =>
    rw [event] at alive
    exact bounded.threadExit alive time
  | periodic time => exact bounded.periodic time
  | _ =>
    rw [event] at valid
    exact bounded.inherited (by simp) valid

lemma handle_fails (hw : Hardware n ρ) (invalid : ¬ Valid s.pinned input.event) :
    ∃ fault, handle hw input s = .error fault := by
  obtain ⟨fault, failed⟩ := handle_invalid invalid
  refine ⟨fault, ?_⟩
  rw [BigSmall.handle]
  cases event : input.event with
  | start thread time =>
    rw [event] at failed
    exact congrArg (Except.map _) failed
  | resume thread time =>
    rw [event] at failed
    exact congrArg (Except.map _) failed
  | setAffinity clock globalTime callingThread thread mask =>
    rw [event] at failed
    exact congrArg (Except.map _) failed
  | _ =>
    rw [event] at invalid
    exact absurd trivial invalid

end Number

/-- In every run in which no thread stalls or ends after it has ended, after every event at most as
many threads are marked and have not ended as there are big cores, and the next valid event
returns. -/
theorem bigThreads_le (hw : Hardware n ρ) (quantum : ℕ) (rng : ρ) (inputs : List (Input n))
    (alive : Runs.Guarded (step hw) (fun state input => ∀ s, state = .ok s → s.Alive input.event)
      (.ok (start quantum rng)) inputs) :
    Runs.Throughout (step hw) (fun state => ∀ s, state = .ok s →
        s.bigThreads.encard ≤ hw.numBigCores ∧
        ∀ input, s.Alive input.event → Valid s.pinned input.event →
          ∃ s', handle hw input s = .ok s') (.ok (start quantum rng)) inputs := by
  refine Runs.throughout_guarded
    (I := fun state => ∀ s : BigSmall n ρ, state = .ok s → Bounded hw s) ?_ ?_ ?_ alive
  · intro state input bounded living after ran
    obtain ⟨s, rfl, handled⟩ := bind_eq_ok.mp ran
    by_cases valid : Valid s.pinned input.event
    · obtain ⟨s', returned, kept⟩ := (bounded s rfl).handle (living s rfl) valid
      cases returned.symm.trans handled
      exact kept
    · obtain ⟨fault, failed⟩ := handle_fails hw valid
      cases failed.symm.trans handled
  · intro state bounded s same
    refine ⟨(bounded s same).few, fun input living valid => ?_⟩
    obtain ⟨s', returned, -⟩ := (bounded s same).handle living valid
    exact ⟨s', returned⟩
  · rintro s ⟨⟩
    refine ⟨.start quantum, by rintro _ ⟨⟩, ?_⟩
    have none : bigThreads (start quantum rng : BigSmall n ρ) = ∅ :=
      Set.eq_empty_of_forall_notMem fun thread mem => Bool.false_ne_true mem.1
    rw [none, Set.encard_empty]
    exact zero_le

def oneBig : Hardware n Unit := ⟨fun core => core.val = 0, fun _ => (0, ())⟩

def atZero (event : Event n) : Input n := ⟨fun _ => 0, 0, event⟩

def markedEnds : List (Input n) :=
  [.create [], .create [], .start 0 0, .start 1 0, .periodic 10, .exit 0 11,
    .stall 1 .futex 12].map atZero

/-- The first thread ends with its mark, and the second one gets another. -/
example : (Runs.run (step oneBig) (.ok (start 5 ())) ((markedEnds (n := 2)).take 6)).toOption.map
    (fun s => (s.isBig 0, s.exited 0, s.isBig 1, s.exited 1)) = some (true, true, true, false) := by
  decide

theorem markedEnds_bounded : Runs.Throughout (step oneBig) (fun state => ∀ s, state = .ok s →
        s.bigThreads.encard ≤ (oneBig (n := 2)).numBigCores ∧
        ∀ input, s.Alive input.event → Valid s.pinned input.event →
          ∃ s', handle oneBig input s = .ok s')
      (.ok (start 5 ())) (markedEnds (n := 2)) := by
  refine bigThreads_le oneBig 5 () markedEnds ⟨?_, ?_, ?_, ?_, ?_, ?_, ?_, trivial⟩
  · exact fun _ _ => trivial
  · exact fun _ _ => trivial
  · exact fun _ _ => trivial
  · exact fun _ _ => trivial
  · exact fun _ _ => trivial
  · rintro _ ⟨⟩
    exact rfl
  · rintro _ ⟨⟩
    exact rfl

end BigSmall

end Sniper.Scheduler
