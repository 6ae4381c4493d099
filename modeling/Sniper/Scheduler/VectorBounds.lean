import Sniper.Scheduler.Frame
import Sniper.Scheduler.Periodic

/-!
# The sizes of the scheduler's vectors

`m_thread_info` and `m_threads_runnable` are indexed by the number of a thread. The first grows when
a thread is created, by 16 entries, or to 16 entries behind the thread whose affinity is set. The
second starts with 16 entries and grows by 16 when a thread is started that it has no room for. The
indices that are used are followed here through the calls, with the size of the vector at the time.
-/

namespace Sniper.Scheduler

open Sniper.System Fallible Option List

variable {n : ℕ}

inductive Table where
  | threadInfo
  | threadsRunnable
  deriving DecidableEq, Repr

structure Access where
  table : Table
  index : ThreadId
  size : ℕ
  deriving DecidableEq, Repr

def Access.InBounds (access : Access) : Prop := access.index < access.size

/-- The scheduler, with the size of `m_thread_info`. -/
structure Sized (n : ℕ) where
  pinned : Pinned n
  infoSize : ℕ

/-- What is asked of the scheduler. The first request stands for what the thread manager does with
the states of the threads in between. -/
inductive Request (n : ℕ) where
  | threads (threads : Threads) (threadCore : ThreadId → Option (Fin n))
  | create (initialAffinity : List (Fin n))
  | start (thread : ThreadId) (time : ℕ)
  | setAffinity (clock : Fin n → ℕ) (globalTime : ℕ) (callingThread : Option ThreadId)
      (thread : ThreadId) (mask : Option (List ℕ))

def Request.event : Request n → Event n
  | .threads states threadCore => .threads states threadCore
  | .create initialAffinity => .create initialAffinity
  | .start thread time => .start thread time
  | .setAffinity clock globalTime callingThread thread mask =>
    .setAffinity clock globalTime callingThread thread mask

/-! ## The indices that are used -/

/-- The indices that one call of `reschedule` uses, without the calls nested in it. -/
def Call.accesses (time infoSize : ℕ) (call : Call n) : List Access :=
  if call.starting then []
  else
    (range call.state.numRunnable).flatMap (fun thread =>
      ⟨.threadInfo, thread, infoSize⟩ ::
        if (call.state.threadInfo thread).coreAffinity call.core then
          [⟨.threadsRunnable, thread, call.state.numRunnable⟩] else []) ++
    if call.current = call.selected time then []
    else
      (call.current.toList ++ (call.selected time).toList).map (⟨.threadInfo, ·, infoSize⟩)

/-- The indices that `reschedule` uses. -/
def Pinned.rescheduleAccesses (time infoSize : ℕ) (core : Fin n) (s : Pinned n) : List Access :=
  (Call.calls time (n + 1) ⟨core, s⟩).flatMap (Call.accesses time infoSize)

def Pinned.freeAccesses (time : Fin n → ℕ) (infoSize : ℕ) (thread : ThreadId) (s : Pinned n) :
    List Access :=
  ⟨.threadInfo, thread, infoSize⟩ :: (s.findFreeCoreForThread thread).elim [] fun core =>
    s.rescheduleAccesses (time core) infoSize core

def Pinned.yieldAccesses (clock : Fin n → ℕ) (infoSize : ℕ) (thread : ThreadId) (s : Pinned n) :
    List Access :=
  ⟨.threadInfo, thread, infoSize⟩ :: (s.threadInfo thread).coreRunning.elim [] fun core =>
      let s := s.setQuantumLeft core 0
      s.rescheduleAccesses (clock core) infoSize core ++
        (s.rescheduleCore (clock core) core).toOption.elim [] fun s =>
          ⟨.threadInfo, thread, infoSize⟩ :: if (s.threadInfo thread).coreAffinity core then []
            else s.freeAccesses (fun _ => clock core) infoSize thread

namespace Sized

/-- `m_thread_info` is resized for a thread whose affinity is set. -/
def sizeFor (thread : ThreadId) (s : Sized n) : ℕ :=
  if s.infoSize ≤ thread then thread + 16 else s.infoSize

def startAccesses (thread : ThreadId) (time : ℕ) (s : Sized n) : List Access :=
  let pinned := (s.pinned.makeRoom thread).setRunnable thread true
  ⟨.threadsRunnable, thread, pinned.numRunnable⟩ ::
    pinned.freeAccesses (fun _ => time) s.infoSize thread

/-- What `threadSetAffinity` uses once the affinity of a thread that exists is set. -/
def placeAccesses (clock : Fin n → ℕ) (globalTime : ℕ) (callingThread : Option ThreadId)
    (thread : ThreadId) (infoSize : ℕ) (s : Pinned n) : List Access :=
  if callingThread = some thread then s.yieldAccesses clock infoSize thread
  else
    ⟨.threadInfo, thread, infoSize⟩ :: match (s.threadInfo thread).coreRunning with
      | some core =>
        if (s.threadInfo thread).coreAffinity core then
          [⟨.threadsRunnable, thread, s.numRunnable⟩] else []
      | none =>
        ⟨.threadsRunnable, thread, s.numRunnable⟩ :: if s.threadsRunnable thread then
            s.freeAccesses (fun core => max (clock core) globalTime) infoSize thread else []

/-- The indices that a request uses in `__threadStart`, `threadSetAffinity` and `reschedule`. -/
def accesses (s : Sized n) : Request n → List Access
  | .threads _ _ => []
  | .create _ => []
  | .start thread time => if thread < s.pinned.numThreads then s.startAccesses thread time else []
  | .setAffinity clock globalTime callingThread thread mask =>
    ⟨.threadInfo, thread, s.sizeFor thread⟩ ::
      (s.pinned.setAffinity thread mask).toOption.elim [] fun set =>
        if set.numThreads ≤ thread then []
        else placeAccesses clock globalTime callingThread thread (s.sizeFor thread) set

def handle (s : Sized n) (request : Request n) : Except Fault (Sized n) :=
  (s.pinned.handle request.event).map fun pinned =>
    { pinned := pinned
      infoSize := match request with
        | .create _ =>
          if s.infoSize ≤ s.pinned.numThreads then s.infoSize + 16 else s.infoSize
        | .setAffinity _ _ _ thread _ => s.sizeFor thread
        | _ => s.infoSize }

def start (quantum : ℕ) : Sized n := ⟨.start quantum, 0⟩

def step (state : Except Fault (Sized n)) (request : Request n) : Except Fault (Sized n) :=
  state.bind fun s => s.handle request

/-! ## When they are in bounds -/

/-- The thread, which runs on this core, gives way: `reschedule` goes through the threads for this
core, or else for a free one. -/
def Scans (thread : ThreadId) (core : Fin n) (s : Pinned n) : Prop :=
  Call.starting ⟨core, s⟩ = false ∨ ((s.threadInfo thread).coreAffinity core = false ∧
      (s.findFreeCoreForThread thread).isSome)

def PlaceFits (callingThread : Option ThreadId) (thread : ThreadId) (infoSize : ℕ)
    (s : Pinned n) : Prop :=
  if callingThread = some thread then
    ∀ core, (s.threadInfo thread).coreRunning = some core → Scans thread core s →
      s.numRunnable ≤ infoSize
  else
    match (s.threadInfo thread).coreRunning with
    | some core => (s.threadInfo thread).coreAffinity core = true → thread < s.numRunnable
    | none => thread < s.numRunnable ∧ (s.threadsRunnable thread = true →
        (s.findFreeCoreForThread thread).isSome → s.numRunnable ≤ infoSize)

/-- There is room for the thread, and the threads that `reschedule` goes through all have a
`ThreadInfo`. -/
def Fits (s : Sized n) : Request n → Prop
  | .start thread _ => thread < s.pinned.numThreads → thread < s.pinned.numRunnable + 16 ∧
      ((s.pinned.findFreeCoreForThread thread).isSome →
        (s.pinned.makeRoom thread).numRunnable ≤ s.infoSize)
  | .setAffinity _ _ callingThread thread mask => ∀ set,
      s.pinned.setAffinity thread mask = .ok set → thread < set.numThreads →
        PlaceFits callingThread thread (s.sizeFor thread) set
  | _ => True

end Sized

section Bounds

variable {s : Pinned n} {time infoSize : ℕ} {call : Call n} {thread : ThreadId}

def InBounds (accesses : List Access) : Prop := ∀ access ∈ accesses, access.InBounds

variable {accesses : List Access}

lemma inBounds_cons {access : Access} :
    InBounds (access :: accesses) ↔ access.InBounds ∧ InBounds accesses := forall_mem_cons

lemma inBounds_append {accesses' : List Access} :
    InBounds (accesses ++ accesses') ↔ InBounds accesses ∧ InBounds accesses' :=
  forall_mem_append

lemma inBounds_nil : InBounds [] := by simp [InBounds]

/-- There is a `ThreadInfo` for each thread that exists. -/
structure Covers (infoSize : ℕ) (s : Pinned n) : Prop where
  sound : Sound s
  created : s.numThreads ≤ infoSize

lemma created_current (sound : Sound call.state) (current : call.current = some thread) :
    thread < call.state.numThreads := by
  have runs := (sound.inverse call.core thread).mp current
  exact sound.running thread (by simp [runs])

open Call

lemma Call.accesses_inBounds_iff (call : Call n) (time : ℕ) (covers : Covers infoSize call.state) :
    InBounds (call.accesses time infoSize) ↔
      (call.starting = false → call.state.numRunnable ≤ infoSize) := by
  rw [accesses]
  cases starts : call.starting with
  | true => simp [InBounds]
  | false =>
    simp only [Bool.false_eq_true, if_false, forall_const]
    constructor
    · intro inside
      by_contra beyond
      have used : (⟨.threadInfo, infoSize, infoSize⟩ : Access) ∈
          (range call.state.numRunnable).flatMap (fun thread =>
            (⟨.threadInfo, thread, infoSize⟩ : Access) ::
              if (call.state.threadInfo thread).coreAffinity call.core then
                [⟨.threadsRunnable, thread, call.state.numRunnable⟩] else []) :=
        mem_flatMap.mpr ⟨infoSize, mem_range.mpr (by omega), mem_cons_self⟩
      exact Nat.lt_irrefl infoSize (inside _ (mem_append_left _ used))
    · intro room
      refine inBounds_append.mpr ⟨?_, ?_⟩
      · intro access mem
        obtain ⟨thread, scanned, mem⟩ := mem_flatMap.mp mem
        have below := mem_range.mp scanned
        rcases mem_cons.mp mem with rfl | mem
        · exact Nat.lt_of_lt_of_le below room
        · split at mem
          · obtain rfl := mem_singleton.mp mem
            exact below
          · cases mem
      · split
        · exact inBounds_nil
        · intro access mem
          obtain ⟨thread, moved, rfl⟩ := mem_map.mp mem
          refine Nat.lt_of_lt_of_le ?_ covers.created
          rcases mem_append.mp moved with current | selected
          · exact created_current covers.sound (mem_toList.mp current)
          · exact created_selected covers.sound (mem_toList.mp selected)

lemma numRunnable_placed (call : Call n) (time : ℕ) :
    (call.placed time).numRunnable = call.state.numRunnable := by
  rw [placed, vacated]
  cases call.selected time <;> cases call.current <;> rfl

lemma nested_spec {inner : Call n} (nests : call.nested time = some inner) :
    ∃ thread core, call.Moves time ∧ call.selected time = some thread ∧
      inner = ⟨core, call.resumed time thread⟩ := by
  obtain ⟨thread, enters, nests⟩ := bind_eq_some_iff.mp nests
  obtain ⟨moves, new⟩ | ⟨-, ⟨⟩⟩ := ite_eq_iff.mp enters
  obtain ⟨-, nests⟩ | ⟨-, ⟨⟩⟩ := ite_eq_iff.mp nests
  obtain ⟨core, -, rfl⟩ := map_eq_some_iff.mp nests
  exact ⟨thread, core, moves, new, rfl⟩

lemma calls_cover (depth : ℕ) (call : Call n) (covers : Covers infoSize call.state) :
    ∀ inner ∈ call.calls time depth,
      Covers infoSize inner.state ∧ inner.state.numRunnable = call.state.numRunnable := by
  induction depth generalizing call with
  | zero => simp [calls]
  | succ depth ih =>
    intro inner mem
    rcases mem_cons.mp mem with rfl | mem
    · exact ⟨covers, rfl⟩
    cases nests : call.nested time with
    | none => simp [nests] at mem
    | some next =>
      rw [nests] at mem
      obtain ⟨thread, core, moves, new, rfl⟩ := nested_spec nests
      have resumed : Covers infoSize (call.resumed time thread) :=
        ⟨sound_resumed covers.sound moves new,
          (numThreads_placed call time).trans_le covers.created⟩
      obtain ⟨kept, same⟩ := ih ⟨core, call.resumed time thread⟩ resumed inner mem
      exact ⟨kept, same.trans (numRunnable_placed call time)⟩

section

variable (covers : Covers infoSize s)

include covers

lemma reschedule_inBounds_iff {core : Fin n} : InBounds (s.rescheduleAccesses time infoSize core) ↔
      (starting ⟨core, s⟩ = false → s.numRunnable ≤ infoSize) := by
  constructor
  · intro inside
    refine (accesses_inBounds_iff ⟨core, s⟩ time covers).mp fun access mem => ?_
    exact inside access (mem_flatMap.mpr ⟨⟨core, s⟩, mem_cons_self, mem⟩)
  · intro room access mem
    obtain ⟨inner, called, mem⟩ := mem_flatMap.mp mem
    obtain ⟨kept, same⟩ := calls_cover (n + 1) ⟨core, s⟩ covers inner called
    refine (accesses_inBounds_iff inner time kept).mpr (fun runs => ?_) access mem
    cases starts : starting ⟨core, s⟩ with
    | true =>
      -- The call returns at once, so no other is nested in it.
      have stays : ¬ Call.Moves time ⟨core, s⟩ := fun moves => by
        simp [moves.1] at starts
      rw [calls, nested_of_stays stays] at called
      obtain rfl := mem_singleton.mp called
      simp [starts] at runs
    | false => exact same.trans_le (room starts)

variable {clock : Fin n → ℕ}

lemma free_inBounds_iff (below : thread < infoSize) :
    InBounds (s.freeAccesses clock infoSize thread) ↔
      ((s.findFreeCoreForThread thread).isSome → s.numRunnable ≤ infoSize) := by
  rw [Pinned.freeAccesses, inBounds_cons]
  refine (and_iff_right below).trans ?_
  cases found : s.findFreeCoreForThread thread with
  | none => simp [InBounds]
  | some core =>
    have idle : starting ⟨core, s⟩ = false := by
      rw [starting, current, findFreeCore_spec found]
      rfl
    refine (reschedule_inBounds_iff covers).trans ?_
    simp [idle]

lemma yield_inBounds_iff (below : thread < infoSize) :
    InBounds (s.yieldAccesses clock infoSize thread) ↔
      ∀ core, (s.threadInfo thread).coreRunning = some core → Sized.Scans thread core s →
        s.numRunnable ≤ infoSize := by
  rw [Pinned.yieldAccesses, inBounds_cons]
  refine (and_iff_right below).trans ?_
  cases running : (s.threadInfo thread).coreRunning with
  | none => simp [InBounds]
  | some core =>
    have covers' : Covers infoSize (s.setQuantumLeft core 0) :=
      ⟨covers.sound.setQuantumLeft core 0, covers.created⟩
    obtain ⟨first, returned, sound⟩ := keeps_rescheduleCore covers'.sound (clock core) core
    have kept := kept_rescheduleCore (clock core) core _ first returned
    have later : Covers infoSize first := ⟨sound, kept.numThreads.trans_le covers.created⟩
    have second : InBounds (if (first.threadInfo thread).coreAffinity core then []
        else first.freeAccesses (fun _ => clock core) infoSize thread) ↔
        ((first.threadInfo thread).coreAffinity core = false →
          (first.findFreeCoreForThread thread).isSome → s.numRunnable ≤ infoSize) := by
      cases (first.threadInfo thread).coreAffinity core with
      | true => simp [InBounds]
      | false =>
        have room : first.numRunnable = s.numRunnable := kept.numRunnable
        simp [free_inBounds_iff later below, room]
    simp only [elim_some, returned, Except.toOption, inBounds_append, inBounds_cons, second]
    rw [reschedule_inBounds_iff covers', and_iff_right (show Access.InBounds ⟨_, _, _⟩ from below)]
    cases starts : starting ⟨core, s⟩ with
    | true =>
      -- The first call changes nothing, so it is this state in which a free core is looked for.
      cases returned.symm.trans (if_pos starts)
      constructor
      · rintro ⟨-, free⟩ _ ⟨⟩ (runs | ⟨away, found⟩)
        · simp [starts] at runs
        · exact free away found
      · intro room
        refine ⟨fun runs => ?_, fun away found => room core rfl (.inr ⟨away, found⟩)⟩
        exact absurd (starts.symm.trans runs) (by decide)
    | false =>
      constructor
      · rintro ⟨room, -⟩ _ ⟨⟩ -
        exact room starts
      · intro room
        have all := room core rfl (.inl starts)
        exact ⟨fun _ => all, fun _ _ => all⟩

lemma Sized.place_inBounds_iff {globalTime : ℕ}
    {callingThread : Option ThreadId} (below : thread < infoSize) :
    InBounds (placeAccesses clock globalTime callingThread thread infoSize s) ↔
      PlaceFits callingThread thread infoSize s := by
  rw [placeAccesses, PlaceFits]
  by_cases self : callingThread = some thread
  · rw [if_pos self, if_pos self]
    exact yield_inBounds_iff covers below
  · rw [if_neg self, if_neg self, inBounds_cons]
    refine (and_iff_right below).trans ?_
    cases (s.threadInfo thread).coreRunning with
    | some core =>
      dsimp only
      cases (s.threadInfo thread).coreAffinity core with
      | true => simp [InBounds, Access.InBounds]
      | false => simp [InBounds]
    | none =>
      rw [inBounds_cons]
      refine and_congr Iff.rfl ?_
      cases s.threadsRunnable thread with
      | true => simp [free_inBounds_iff covers below]
      | false => simp [InBounds]

end

lemma sound_setAffinity (thread : ThreadId) (mask : Option (List ℕ)) (sound : Sound s) :
    Ensures (s.setAffinity thread mask) Sound := by
  intro set sets
  by_cases valid : ∀ cpus, mask = some cpus → ∀ cpu ∈ cpus, cpu < n
  · have keeps : Keeps (s.setAffinity thread mask) := keeps_setAffinity valid sound
    obtain ⟨s', returned, kept⟩ := keeps
    cases returned.symm.trans sets
    exact kept
  · cases mask with
    | none => exact absurd (by rintro _ ⟨⟩) valid
    | some cpus =>
      have fails : s.setAffinity thread (some cpus) = .error .invalidCore := by
        refine addMask_fails fun inside => valid ?_
        rintro _ ⟨⟩
        exact inside
      cases fails.symm.trans sets

lemma Sized.lt_sizeFor (thread : ThreadId) (s : Sized n) : thread < s.sizeFor thread := by
  rw [sizeFor]
  split
  · exact Nat.lt_add_of_pos_right (by decide)
  · next room => exact Nat.lt_of_not_le room

lemma Sized.le_sizeFor (thread : ThreadId) (s : Sized n) : s.infoSize ≤ s.sizeFor thread := by
  rw [sizeFor]
  split
  · next beyond => exact Nat.le_add_right_of_le beyond
  · exact le_refl s.infoSize

lemma Sized.accesses_inBounds_iff {s : Sized n} (covers : Covers s.infoSize s.pinned)
    (request : Request n) : InBounds (s.accesses request) ↔ s.Fits request := by
  cases request with
  | threads states threadCore => simp [accesses, Fits, InBounds]
  | create initialAffinity => simp [accesses, Fits, InBounds]
  | start thread time =>
    rw [accesses, Fits]
    split
    · next created =>
      have known : thread < s.infoSize := Nat.lt_of_lt_of_le created covers.created
      have grown : Covers s.infoSize ((s.pinned.makeRoom thread).setRunnable thread true) := by
        have room : Sound (s.pinned.makeRoom thread) :=
          covers.sound.alike rfl rfl rfl covers.sound.runnable
        exact ⟨room.setRunnable fun _ => created, covers.created⟩
      rw [startAccesses, inBounds_cons, free_inBounds_iff grown known]
      simp only [created, forall_const]
      refine and_congr ?_ Iff.rfl
      change thread < (if s.pinned.numRunnable ≤ thread then s.pinned.numRunnable + 16
        else s.pinned.numRunnable) ↔ thread < s.pinned.numRunnable + 16
      split
      · exact Iff.rfl
      · next room =>
        have below := Nat.lt_of_not_le room
        exact iff_of_true below (Nat.lt_add_right 16 below)
    · next missing => simp [InBounds, missing]
  | setAffinity clock globalTime callingThread thread mask =>
    rw [accesses, Fits, inBounds_cons]
    refine (and_iff_right (s.lt_sizeFor thread)).trans ?_
    cases sets : s.pinned.setAffinity thread mask with
    | error fault => simp [InBounds, Except.toOption]
    | ok set =>
      have marks := setAffinity_marks thread mask s.pinned set sets
      simp only [Except.toOption, elim_some, Except.ok.injEq, forall_eq']
      by_cases missing : set.numThreads ≤ thread
      · simp [missing, InBounds]
      · have covers' : Covers (s.sizeFor thread) set := by
          have sound := sound_setAffinity thread mask covers.sound set sets
          exact ⟨sound, marks.numThreads.trans_le (covers.created.trans (s.le_sizeFor thread))⟩
        rw [if_neg missing, place_inBounds_iff covers' (s.lt_sizeFor thread)]
        exact ⟨fun fits _ => fits, fun fits => fits (Nat.lt_of_not_le missing)⟩

end Bounds

/-! ## Runs -/

namespace Sized

/-- Every thread that exists has a `ThreadInfo`, and what runs where is in order. -/
def Inv (state : Except Fault (Sized n)) : Prop :=
  ∀ s, state = .ok s → Covers s.infoSize s.pinned

lemma inv_start (quantum : ℕ) : Inv (.ok (start quantum : Sized n)) := by
  rintro _ ⟨⟩
  exact ⟨Sound.start quantum, le_refl 0⟩

lemma inv_step (state : Except Fault (Sized n)) (request : Request n) (inv : Inv state) :
    Inv (step state request) := by
  intro s' ran
  obtain ⟨s, rfl, handled⟩ := bind_eq_ok.mp ran
  obtain ⟨pinned, calls, rfl⟩ := map_eq_ok.mp handled
  have covers := inv s rfl
  have before : ∀ t, (.ok s.pinned : Except Fault (Pinned n)) = .ok t → Sound t := by
    rintro _ ⟨⟩
    exact covers.sound
  refine ⟨sound_step before pinned calls, ?_⟩
  cases request with
  | create initialAffinity =>
    cases calls
    rw [numThreads_createThread]
    dsimp only
    split
    · next full => exact (Nat.add_le_add_right covers.created 1).trans (by omega)
    · next room => exact Nat.lt_of_not_le room
  | threads states threadCore =>
    exact (handle_numThreads (by simp [Request.event]) pinned calls).trans_le covers.created
  | start thread time =>
    exact (handle_numThreads (by simp [Request.event]) pinned calls).trans_le covers.created
  | setAffinity clock globalTime callingThread thread mask =>
    have same := handle_numThreads (by simp [Request.event]) pinned calls
    exact same.trans_le (covers.created.trans (s.le_sizeFor thread))

/-- In a run, every index is below the size of its vector exactly if there is room before each
request. -/
theorem accesses_inBounds_iff_fits (quantum : ℕ) (requests : List (Request n)) : Runs.Guarded step
        (fun state request => ∀ s, state = .ok s → ∀ access ∈ s.accesses request,
          access.index < access.size) (.ok (start quantum)) requests ↔
      Runs.Guarded step (fun state request => ∀ s, state = .ok s → s.Fits request)
        (.ok (start quantum)) requests := by
  refine Runs.guarded_iff inv_step (fun state request inv => ?_) (inv_start quantum) requests
  exact forall_congr' fun s => forall_congr' fun same => accesses_inBounds_iff (inv s same) request

/-- The affinity of the seventeenth thread is set when no thread has started yet: whether it is
runnable is looked up behind the sixteen entries that there are. -/
theorem seventeenthThread_beyond :
    (Runs.run step (.ok (start 0 : Sized 1)) (replicate 17 (.create []))).toOption.map
        (fun s => s.accesses (.setAffinity (fun _ => 0) 0 (some 0) 16 none)) =
      some [⟨.threadInfo, 16, 32⟩, ⟨.threadInfo, 16, 32⟩, ⟨.threadsRunnable, 16, 16⟩] := by
  decide

end Sized

end Sniper.Scheduler
