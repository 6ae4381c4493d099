import Sniper.Lib.Fallible
import Sniper.Lib.Runs
import Sniper.System.BarrierServer

/-!
# Who is at the barrier

The server takes a running core for one that is at the barrier by its recorded clock alone.
This is right while the clock of every core outside is behind the next barrier: a core is let
out in a round of the release loop, which has moved the barrier past its clock. A core that
leaves because the barrier is disabled keeps its clock, and counts as waiting from then on.
-/

namespace Sniper.System.Barrier

open Fallible Function List Runs

variable {n : ℕ}

/-! ## The test -/

def Running (machine : Machine n) (core : Fin n) : Prop :=
  machine.coreState core = .running ∧
    ∃ thread, machine.coreThread core = some thread ∧ machine.isThreadRunning thread = true

lemma isCoreRunning_iff {machine : Machine n} {core : Fin n} :
    machine.isCoreRunning core = .ok true ↔ Running machine core := by
  rw [Machine.isCoreRunning, Running]
  split
  · next running =>
    cases machine.coreThread core with
    | none => simp
    | some thread => simp [running]
  · next idle => simp [idle]

structure Detailed (s : Server n) : Prop where
  fastforward : s.fastforward = false
  alone : ∀ core, s.coreGroup core = none

section Reached

variable {machine : Machine n} {s : Server n}

lemma anySiblingRunning_alone (detailed : Detailed s) (core : Fin n) (cores : List (Fin n)) :
    anySiblingRunning machine s core cores = .ok false := by
  induction cores with
  | nil => rfl
  | cons sibling siblings ih => rw [anySiblingRunning, detailed.alone, if_neg (by simp), ih]

lemma isCoreRunning_detailed (detailed : Detailed s) (core : Fin n) :
    isCoreRunning machine s core = machine.isCoreRunning core := by
  rw [isCoreRunning, detailed.fastforward, anySiblingRunning_alone detailed]
  rcases machine.isCoreRunning core with fault | (_ | _) <;> rfl

lemma reachedLoop_spec (detailed : Detailed s) {cores : List (Fin n)} {reached : Bool}
    (ran : reachedLoop machine s cores reached = .ok true) :
    (∀ core ∈ cores, Running machine core → s.nextBarrierTime ≤ s.localClock core) ∧
      (reached = true ∨
        ∃ core ∈ cores, Running machine core ∧ s.nextBarrierTime ≤ s.localClock core) := by
  induction cores generalizing reached with
  | nil => exact ⟨by simp, .inl (Except.ok.inj ran)⟩
  | cons core cores ih =>
    rw [reachedLoop, detailed.fastforward, if_neg (by simp), if_neg (by simp [detailed.alone]),
      isCoreRunning_detailed detailed] at ran
    rcases answer : machine.isCoreRunning core with fault | running
    · rw [answer] at ran
      cases ran
    rw [answer] at ran
    cases running with
    | false =>
      obtain ⟨all, some⟩ := ih ran
      have idle : ¬ Running machine core := by
        rw [← isCoreRunning_iff, answer]
        simp
      refine ⟨?_, some.imp_right ?_⟩
      · rintro other (_ | ⟨_, mem⟩) running
        · exact absurd running idle
        · exact all other mem running
      · rintro ⟨other, mem, there⟩
        exact ⟨other, mem_cons_of_mem core mem, there⟩
    | true =>
      split at ran
      · cases ran
      next late =>
      obtain ⟨all, -⟩ := ih ran
      refine ⟨?_, .inr ⟨core, mem_cons_self, isCoreRunning_iff.mp answer, by omega⟩⟩
      rintro other (_ | ⟨_, mem⟩) running
      · omega
      · exact all other mem running

end Reached

/-! ## The release loop -/

structure Releases (s s' : Server n) : Prop where
  clocks : s'.localClock = s.localClock
  groups : s'.coreGroup = s.coreGroup
  fastforward : s'.fastforward = s.fastforward
  disable : s'.disable = s.disable
  later : s.nextBarrierTime ≤ s'.nextBarrierTime
  acquired : ∀ core, s'.acquired core = false →
    s.acquired core = false ∨ s.localClock core < s'.nextBarrierTime

lemma Releases.refl (s : Server n) : Releases s s := ⟨rfl, rfl, rfl, rfl, le_rfl, fun _ => Or.inl⟩

lemma Releases.trans {s s' s'' : Server n} (first : Releases s s') (second : Releases s' s'') :
    Releases s s'' where
  clocks := second.clocks.trans first.clocks
  groups := second.groups.trans first.groups
  fastforward := second.fastforward.trans first.fastforward
  disable := second.disable.trans first.disable
  later := first.later.trans second.later
  acquired core outside := by
    rcases second.acquired core outside with outside | behind
    · exact (first.acquired core outside).imp_right fun behind => behind.trans_le second.later
    · rw [first.clocks] at behind
      exact .inr behind

section Release

variable (caller : Option ThreadId) {s : Server n}

lemma releaseCore_releases (state : Server n × Bool × Bool) (core : Fin n) :
    Releases state.1 (releaseCore caller state core).1 := by
  obtain ⟨s, mustWait, resumed⟩ := state
  rw [releaseCore]
  dsimp only
  split
  · next behind =>
    have acquired : ∀ other, update s.acquired core false other = false →
        s.acquired other = false ∨ s.localClock other < s.nextBarrierTime := by
      intro other outside
      by_cases same : other = core
      · rw [same]
        exact .inr behind.1
      · rw [update_of_ne same] at outside
        exact .inl outside
    split <;> exact ⟨rfl, rfl, rfl, rfl, le_rfl, acquired⟩
  · exact Releases.refl s

lemma foldl_releases (cores : List (Fin n)) (state : Server n × Bool × Bool) :
    Releases state.1 (cores.foldl (releaseCore caller) state).1 := by
  induction cores generalizing state with
  | nil => exact Releases.refl state.1
  | cons core cores ih => exact (releaseCore_releases caller state core).trans (ih _)

def Releasable (s : Server n) (core : Fin n) : Prop :=
  s.localClock core < s.nextBarrierTime ∧ s.acquired core = true

variable {core : Fin n}

lemma releaseCore_of_releasable {state : Server n × Bool × Bool}
    (releasable : Releasable state.1 core) : (releaseCore caller state core).2.2 = true := by
  obtain ⟨behind, inside⟩ := releasable
  rw [releaseCore]
  dsimp only
  rw [if_pos ⟨behind, inside⟩]
  split <;> rfl

lemma releaseCore_of_not {state : Server n × Bool × Bool}
    (kept : ¬ Releasable state.1 core) : releaseCore caller state core = state := if_neg kept

lemma foldl_of_none (cores : List (Fin n)) (state : Server n × Bool × Bool)
    (none : ∀ core, ¬ Releasable state.1 core) :
    cores.foldl (releaseCore caller) state = state := by
  induction cores with
  | nil => rfl
  | cons core cores ih => rw [foldl_cons, releaseCore_of_not caller (none core), ih]

lemma foldl_resumed (cores : List (Fin n)) {state : Server n × Bool × Bool}
    (resumed : state.2.2 = true) : (cores.foldl (releaseCore caller) state).2.2 = true := by
  induction cores generalizing state with
  | nil => exact resumed
  | cons core cores ih =>
    refine ih ?_
    by_cases releasable : Releasable state.1 core
    · exact releaseCore_of_releasable caller releasable
    · rw [releaseCore_of_not caller releasable]
      exact resumed

lemma foldl_of_releasable {cores : List (Fin n)} {state : Server n × Bool × Bool}
    (mem : core ∈ cores) (releasable : Releasable state.1 core) :
    (cores.foldl (releaseCore caller) state).2.2 = true := by
  induction cores with
  | nil => cases mem
  | cons first cores ih =>
    rw [foldl_cons]
    by_cases now : Releasable state.1 first
    · exact foldl_resumed caller cores (releaseCore_of_releasable caller now)
    · rw [releaseCore_of_not caller now]
      refine ih ((mem_cons.mp mem).resolve_left ?_)
      rintro rfl
      exact now releasable

variable (cfg : Config n)

lemma releaseRound_releases (s : Server n) (mustWait : Bool) :
    Releases s (releaseRound cfg caller s mustWait).1 := by
  have advanced : Releases s (advanceBarrier cfg s) :=
    ⟨rfl, rfl, rfl, rfl, Nat.le_add_right _ _, fun _ => Or.inl⟩
  exact advanced.trans
    (foldl_releases caller (finRange n) (advanceBarrier cfg s, mustWait, false))

lemma releaseLoop_releases {fuel : ℕ} {mustWait : Bool} {result : Server n × Option Bool}
    (ran : releaseLoop cfg caller fuel s mustWait = .ok result) : Releases s result.1 := by
  induction fuel generalizing s mustWait with
  | zero => cases ran
  | succ fuel ih =>
    rw [releaseLoop] at ran
    have round := releaseRound_releases caller cfg s mustWait
    split at ran
    · cases ran
      exact ⟨rfl, rfl, rfl, rfl, le_rfl, fun _ => Or.inl⟩
    · dsimp only at ran
      split at ran
      · cases ran
        exact round
      · exact round.trans (ih ran)

variable {cfg}

lemma releaseLoop_goes_on (enabled : s.disable = false)
    (none : ∀ core, ¬ Releasable (advanceBarrier cfg s) core) (fuel : ℕ) (mustWait : Bool) :
    releaseLoop cfg caller (fuel + 1) s mustWait =
      releaseLoop cfg caller fuel (advanceBarrier cfg s) mustWait := by
  have round : releaseRound cfg caller s mustWait = (advanceBarrier cfg s, mustWait, false) :=
    foldl_of_none caller _ _ none
  rw [releaseLoop, if_neg (by simp [enabled]), round]
  rfl

lemma releaseLoop_lets_out (enabled : s.disable = false)
    (releasable : Releasable (advanceBarrier cfg s) core) (fuel : ℕ) (mustWait : Bool) :
    ∃ result, releaseLoop cfg caller (fuel + 1) s mustWait = .ok result := by
  have round : (releaseRound cfg caller s mustWait).2.2 = true :=
    foldl_of_releasable caller (mem_finRange core) releasable
  rw [releaseLoop, if_neg (by simp [enabled])]
  exact ⟨_, if_pos round⟩

lemma releaseLoop_returns (positive : 0 < cfg.barrierInterval) {rounds fuel : ℕ}
    (enabled : s.disable = false) (inside : s.acquired core = true)
    (near : s.localClock core < s.nextBarrierTime + rounds) (enough : rounds ≤ fuel)
    (mustWait : Bool) : ∃ result, releaseLoop cfg caller (fuel + 1) s mustWait = .ok result := by
  induction rounds generalizing s fuel with
  | zero =>
    have releasable : Releasable (advanceBarrier cfg s) core :=
      ⟨near.trans_le (Nat.le_add_right _ _), inside⟩
    exact releaseLoop_lets_out caller enabled releasable fuel mustWait
  | succ rounds ih =>
    by_cases none : ∀ core, ¬ Releasable (advanceBarrier cfg s) core
    · obtain ⟨fuel, rfl⟩ := Nat.exists_eq_succ_of_ne_zero (show fuel ≠ 0 by omega)
      rw [releaseLoop_goes_on caller enabled none]
      refine ih enabled inside ?_ (by omega)
      simp only [advanceBarrier]
      omega
    · obtain ⟨other, releasable⟩ := not_forall.mp none
      exact releaseLoop_lets_out caller enabled (not_not.mp releasable) fuel mustWait

lemma releaseLoop_spins (enabled : s.disable = false) (empty : ∀ core, s.acquired core = false)
    (fuel : ℕ) (mustWait : Bool) : releaseLoop cfg caller fuel s mustWait = .error .releasing := by
  induction fuel generalizing s with
  | zero => rfl
  | succ fuel ih =>
    rw [releaseLoop_goes_on caller enabled fun core releasable =>
      absurd ((empty core).symm.trans releasable.2) (by decide)]
    exact ih enabled empty

end Release

/-! ## Calls -/

structure Current (s : Server n) : Prop extends Detailed s where
  behind : ∀ core, s.acquired core = false → s.localClock core < s.nextBarrierTime

lemma Current.releases {s s' : Server n} (current : Current s) (releases : Releases s s') :
    Current s' where
  fastforward := releases.fastforward.trans current.fastforward
  alone := by
    rw [releases.groups]
    exact current.alone
  behind core outside := by
    rw [releases.clocks]
    rcases releases.acquired core outside with outside | behind
    · exact (current.behind core outside).trans_le releases.later
    · exact behind

lemma Current.setClock {s : Server n} (current : Current s) {clock : Fin n → ℕ}
    {acquired : Fin n → Bool} (thread : Fin n → Option ThreadId) (toRelease : List (Fin n))
    (kept : ∀ core, acquired core = false → s.acquired core = false ∧
      clock core = s.localClock core) :
    Current { s with
      localClock := clock
      acquired := acquired
      coreThread := thread
      toRelease := toRelease } where
  fastforward := current.fastforward
  alone := current.alone
  behind core outside := by
    obtain ⟨before, same⟩ := kept core outside
    show clock core < _
    rw [same]
    exact current.behind core before

section Calls

variable {cfg : Config n} {fuel : ℕ} {machine : Machine n} {s s' : Server n}

lemma barrierRelease_releases {caller : Option ThreadId} {result : Server n × Bool}
    (detailed : Detailed s) (ran : barrierRelease cfg fuel caller s = .ok result) :
    Releases s result.1 := by
  rw [barrierRelease] at ran
  split at ran
  · cases ran
  have same : skipTimeslots s = s := if_neg (by simp [detailed.fastforward])
  rw [same] at ran
  obtain ⟨⟨released, wait⟩, looped, rfl⟩ := map_eq_ok.mp ran
  have releases := releaseLoop_releases caller cfg looped
  cases wait with
  | none => exact releases
  | some mustWait =>
    exact ⟨releases.clocks, releases.groups, releases.fastforward, releases.disable,
      releases.later, releases.acquired⟩

lemma Current.releaseIfReached (current : Current s) {caller : Option ThreadId}
    (ran : releaseIfReached cfg fuel machine caller s = .ok s') : Current s' := by
  obtain ⟨reached, -, ran⟩ := bind_eq_ok.mp ran
  cases reached with
  | false =>
    cases ran
    exact current
  | true =>
    obtain ⟨result, released, rfl⟩ := map_eq_ok.mp ran
    exact current.releases (barrierRelease_releases current.toDetailed released)

lemma Current.arrive (current : Current s) {core : Fin n} {time : ℕ} {thread : ThreadId}
    (ran : arrive machine s core time = .ok (some (s', thread))) :
    Current s' ∧ s'.disable = false := by
  rw [Barrier.arrive] at ran
  split at ran
  · cases ran
  next enabled =>
  dsimp only at ran
  generalize (if s.fastforward = true then core else (s.coreGroup core).getD core) = master at ran
  split at ran
  · cases ran
  split at ran
  · cases ran
  split at ran
  · cases ran
  split at ran
  · cases ran
  cases ran
  refine ⟨current.setClock _ _ fun other outside => ?_, by simpa [doRelease] using enabled⟩
  by_cases same : other = master
  · rw [same, update_self] at outside
    cases outside
  · rw [update_of_ne same] at outside
    exact ⟨outside, update_of_ne same _ _⟩

lemma Current.releaseThread (current : Current s) (thread : ThreadId) :
    Current (releaseThread thread s) :=
  current.setClock _ _ fun core outside =>
    ⟨outside, if_neg fun waits => absurd (outside.symm.trans waits.1) (by decide)⟩

lemma Current.signal (current : Current s) (ran : signal cfg fuel machine s = .ok s') :
    Current s' := by
  rw [Barrier.signal] at ran
  split at ran
  · cases ran
    exact current
  · exact current.releaseIfReached ran

lemma Detailed.setDisable (detailed : Detailed s) (disable : Bool) :
    Detailed (setDisable disable s) := by
  cases disable <;> exact ⟨detailed.fastforward, detailed.alone⟩

end Calls

/-! ## Runs -/

/-- The call enters `barrierRelease`, with this caller and in this state. -/
inductive Enters (state : State n) : Event n → Option ThreadId → Server n → Prop where
  | synchronize {core : Fin n} {time : ℕ} {thread : ThreadId} {s : Server n}
      (arrived : arrive state.machine state.server core time = .ok (some (s, thread)))
      (reached : isBarrierReached state.machine s = .ok true) :
      Enters state (.synchronize core time) (some thread) s
  | threadStall {thread : ThreadId} (enabled : state.server.disable = false)
      (reached : isBarrierReached state.machine (releaseThread thread state.server) = .ok true) :
      Enters state (.threadStall thread) none (releaseThread thread state.server)
  | threadExit {thread : ThreadId} (enabled : state.server.disable = false)
      (reached : isBarrierReached state.machine (releaseThread thread state.server) = .ok true) :
      Enters state (.threadExit thread) none (releaseThread thread state.server)

/-- What the server relies on: a running core outside the barrier is behind it. The barrier is
then released only with all running cores inside, and the release loop ends. -/
structure Settled (cfg : Config n) (state : State n) : Prop where
  behind : ∀ core, Running state.machine core → state.server.acquired core = false →
    state.server.localClock core < state.server.nextBarrierTime
  inside : ∀ event caller s, Enters state event caller s →
    ∀ core, Running state.machine core → s.acquired core = true
  ends : ∀ event caller s, Enters state event caller s →
    ∃ rounds, ∀ fuel, rounds ≤ fuel → ∃ result, releaseLoop cfg caller fuel s true = .ok result

def Undisturbed (state : Except Fault (State n)) (event : Event n) : Prop :=
  ∀ s, state = .ok s → event = .setDisable true →
    ∀ core, s.server.acquired core = true → s.server.localClock core < s.server.nextBarrierTime

section Runs

variable {cfg : Config n} {fuel : ℕ} {state state' : State n}

variable {event : Event n}

lemma Enters.current {caller : Option ThreadId} {s : Server n}
    (enters : Enters state event caller s) (current : Current state.server) :
    Current s ∧ s.disable = false ∧ isBarrierReached state.machine s = .ok true := by
  cases enters with
  | synchronize arrived reached =>
    obtain ⟨current, enabled⟩ := current.arrive arrived
    exact ⟨current, enabled, reached⟩
  | threadStall enabled reached => exact ⟨current.releaseThread _, enabled, reached⟩
  | threadExit enabled reached => exact ⟨current.releaseThread _, enabled, reached⟩

lemma Current.settled (positive : 0 < cfg.barrierInterval) (current : Current state.server) :
    Settled cfg state where
  behind := fun core _ => current.behind core
  inside event caller s enters core running := by
    obtain ⟨current, -, reached⟩ := enters.current current
    by_contra outside
    have behind := current.behind core (by simpa using outside)
    have late :=
      (reachedLoop_spec current.toDetailed reached).1 core (mem_finRange core) running
    omega
  ends event caller s enters := by
    obtain ⟨current, enabled, reached⟩ := enters.current current
    obtain ⟨core, -, -, late⟩ :=
      (reachedLoop_spec current.toDetailed reached).2.resolve_left Bool.false_ne_true
    have inside : s.acquired core = true := by
      by_contra outside
      have behind := current.behind core (by simpa using outside)
      omega
    refine ⟨s.localClock core + 2, fun fuel enough => ?_⟩
    obtain ⟨fuel, rfl⟩ := Nat.exists_eq_succ_of_ne_zero (show fuel ≠ 0 by omega)
    have near : s.localClock core < s.nextBarrierTime + (s.localClock core + 1) := by omega
    exact releaseLoop_returns caller positive enabled inside near (by omega) true

lemma Current.handle (current : Current state.server) (undisturbed : Undisturbed (.ok state) event)
    (ran : state.handle cfg fuel event = .ok state') : Current state'.server := by
  cases event with
  | machine machine =>
    cases ran
    exact current
  | synchronize core time =>
    obtain ⟨server, synchronized, rfl⟩ := map_eq_ok.mp ran
    obtain ⟨arrived, arriving, rest⟩ := bind_eq_ok.mp synchronized
    cases arrived with
    | none =>
      cases rest
      exact current
    | some entered => exact (current.arrive arriving).1.releaseIfReached rest
  | threadStall thread | threadExit thread =>
    obtain ⟨server, signalled, rfl⟩ := map_eq_ok.mp ran
    exact (current.releaseThread thread).signal signalled
  | threadMigrate thread =>
    cases ran
    exact current.releaseThread thread
  | setDisable disable =>
    cases ran
    refine ⟨current.toDetailed.setDisable disable, fun core outside => ?_⟩
    cases disable with
    | false => exact current.behind core outside
    | true =>
      cases inside : state.server.acquired core with
      | false => exact current.behind core inside
      | true => exact undisturbed state rfl rfl core inside

/-- In every run in which the barrier is not disabled while a core waits in it, every running
core outside is behind it, whatever the times, the threads and the cores do. -/
theorem barrier_settled (cfg : Config n) (positive : 0 < cfg.barrierInterval) (fuel : ℕ)
    (events : List (Event n))
    (undisturbed : Guarded (step cfg fuel) Undisturbed (.ok (.start cfg)) events) :
    Throughout (step cfg fuel) (fun state => ∀ s, state = .ok s → Settled cfg s)
      (.ok (.start cfg)) events := by
  refine throughout_guarded
    (I := fun state => ∀ s : State n, state = .ok s → Current s.server) ?_ ?_ ?_ undisturbed
  · rintro state event current undisturbed after ran
    obtain ⟨before, rfl, handled⟩ := bind_eq_ok.mp ran
    exact (current before rfl).handle undisturbed handled
  · intro state current s same
    exact (current s same).settled positive
  · rintro s ⟨⟩
    exact ⟨⟨rfl, fun _ => rfl⟩, fun _ _ => positive⟩

lemma disable_unsettles {core : Fin n} {machine : Machine n} {s : Server n}
    (late : s.nextBarrierTime ≤ s.localClock core) (running : Running machine core) :
    ¬ Settled cfg ⟨setDisable true s, machine⟩ := by
  intro settled
  exact absurd (settled.behind core running rfl) (Nat.not_lt.mpr late)

end Runs

/-! ## A barrier that is disabled and enabled again -/

def twoCores : Config 2 := ⟨100, 1, id⟩

def bothRunning : Machine 2 := ⟨fun _ => .running, fun core => some core, fun _ => true⟩

def oneRunning : Machine 2 :=
  ⟨fun core => if core.val = 0 then .running else .stalled, fun core => some core,
    fun thread => thread = 0⟩

def quietRun : List (Event 2) :=
  [.machine bothRunning, .setDisable true, .setDisable false,
    .synchronize ⟨0, by decide⟩ 150, .synchronize ⟨1, by decide⟩ 150]

def abortedRun : List (Event 2) :=
  [.machine bothRunning, .synchronize ⟨0, by decide⟩ 150, .setDisable true, .setDisable false]

theorem quietRun_settled : 0 < twoCores.barrierInterval ∧
    Throughout (step twoCores 1) (fun state => ∀ s, state = .ok s → Settled twoCores s)
      (.ok (.start twoCores)) quietRun := by
  refine ⟨by decide, barrier_settled twoCores (by decide) 1 quietRun ?_⟩
  refine ⟨?_, ?_, ?_, ?_, ?_, trivial⟩
  · rintro _ _ ⟨⟩
  · rintro s ⟨⟩ - core inside
    cases inside
  · rintro _ _ ⟨⟩
  · rintro _ _ ⟨⟩
  · rintro _ _ ⟨⟩

def abortedServer : Server 2 :=
  { Server.create twoCores with
    localClock := update (fun _ => 0) ⟨0, by decide⟩ 150
    acquired := fun _ => false
    coreThread := update (fun _ => none) ⟨0, by decide⟩ (some 0) }

lemma abortedRun_server (fuel : ℕ) :
    run (step twoCores fuel) (.ok (.start twoCores)) abortedRun =
      .ok ⟨abortedServer, bothRunning⟩ := rfl

/-- Core 0 goes on running with a clock past the barrier. When the thread of core 1 stalls,
the barrier is released though nobody is inside, and the release loop does not end. -/
theorem abortedRun_unsettled :
    (¬ Throughout (step twoCores 1) (fun state => ∀ s, state = .ok s → Settled twoCores s)
      (.ok (.start twoCores)) abortedRun) ∧
    ∀ fuel, run (step twoCores fuel) (.ok (.start twoCores))
      (abortedRun ++ [.machine oneRunning, .threadStall 1]) = .error .releasing := by
  constructor
  · rintro ⟨-, -, -, -, settled⟩
    have after := settled ⟨abortedServer, bothRunning⟩ (abortedRun_server 1)
    have running : Running bothRunning ⟨0, by decide⟩ := ⟨rfl, 0, rfl, rfl⟩
    exact absurd (after.behind ⟨0, by decide⟩ running rfl) (by decide)
  · intro fuel
    have reached : isBarrierReached oneRunning (releaseThread 1 abortedServer) = .ok true := rfl
    have spins : releaseLoop twoCores none fuel (releaseThread 1 abortedServer) true =
        .error .releasing := releaseLoop_spins none rfl (fun _ => rfl) fuel true
    rw [run_append, abortedRun_server]
    show (signal twoCores fuel oneRunning (releaseThread 1 abortedServer)).map _ = _
    have signals : signal twoCores fuel oneRunning (releaseThread 1 abortedServer) =
        releaseIfReached twoCores fuel oneRunning none (releaseThread 1 abortedServer) := rfl
    have releases : barrierRelease twoCores fuel none (releaseThread 1 abortedServer) =
        (releaseLoop twoCores none fuel (releaseThread 1 abortedServer) true).map _ := rfl
    rw [signals, releaseIfReached, reached]
    rw [releases, spins]
    rfl

end Sniper.System.Barrier
