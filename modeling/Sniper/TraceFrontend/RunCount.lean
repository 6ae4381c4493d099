import Mathlib.Data.Finset.Card
import Sniper.Lib.Runs
import Sniper.TraceFrontend.TraceManager

/-!
# Counting the runs of an application

A run of an application is counted when its last active thread ends, unless this one is marked as
aborted. The thread that aborts the others expects to end normally itself. When another thread
aborts it in turn, as two threads in `exit_group` do to each other, the run is never counted, and
the manager waits for an application that is over.
-/

namespace Sniper.TraceFrontend

open Function Finset Nat

def Manager.active (s : Manager) (app : AppId) : Finset ThreadIndex :=
  (Finset.range s.size).filter fun index =>
    (s.threads index).app = app ∧ (s.threads index).stopped = false

structure Account where
  active : ℕ
  numThreads : ℕ
  numRuns : ℕ
  begun : ℕ
  decisions : ℕ

def Manager.account (s : Manager) (app : AppId) : Account where
  active := (s.active app).card
  numThreads := (s.appInfo app).numThreads
  numRuns := (s.appInfo app).numRuns
  begun := s.begun app
  decisions := s.decisions.countP fun decision => decision.1 = app

structure Account.Balanced (account : Account) : Prop where
  threads : 0 < account.active → account.numThreads = account.active
  runs : account.numRuns + (if account.active = 0 then 0 else 1) = account.begun
  decisions : account.decisions = account.numRuns

/-! ## What a step does to the accounts -/

section Accounts

variable (s : Manager) {s' : Manager} {app : AppId} {index : ThreadIndex}

open Manager

variable {s} in
lemma mem_active : index ∈ s.active app ↔
    index < s.size ∧ (s.threads index).app = app ∧ (s.threads index).stopped = false := by
  rw [active, mem_filter, mem_range]

lemma active_congr (size : s'.size = s.size)
    (threads : ∀ index, (s'.threads index).app = (s.threads index).app ∧
      (s'.threads index).stopped = (s.threads index).stopped) (app : AppId) :
    s'.active app = s.active app := by
  simp only [active, size, threads]

lemma account_congr (size : s'.size = s.size)
    (threads : ∀ index, (s'.threads index).app = (s.threads index).app ∧
      (s'.threads index).stopped = (s.threads index).stopped)
    (info : s'.appInfo = s.appInfo) (begun : s'.begun = s.begun)
    (decisions : s'.decisions = s.decisions) : s'.account = s.account := by
  funext app
  rw [account, active_congr s size threads, info, begun, decisions, account]

lemma thread_setThread (index : ThreadIndex) (thread : TraceThread) (other : ThreadIndex) :
    (s.setThread index thread).threads other = if other = index then thread else s.threads other :=
  update_apply s.threads index thread other

lemma account_setThread {thread : TraceThread} (same : thread.app = (s.threads index).app)
    (still : thread.stopped = (s.threads index).stopped) :
    (s.setThread index thread).account = s.account := by
  refine account_congr s rfl (fun other => ?_) rfl rfl rfl
  rw [thread_setThread]
  split
  · next here => exact ⟨by rw [same, here], by rw [still, here]⟩
  · exact ⟨rfl, rfl⟩

@[simp] lemma account_setPosition (index : ThreadIndex) (position : Position) :
    (s.setPosition index position).account = s.account :=
  account_setThread s rfl rfl

@[simp] lemma account_stopAll : s.stopAll.account = s.account :=
  account_congr s rfl (fun _ => ⟨rfl, rfl⟩) rfl rfl rfl

lemma thread_addThread (app : AppId) (index : ThreadIndex) : (s.addThread app).threads index =
      if index = s.size then ⟨app, false, false, .running⟩ else s.threads index :=
  thread_setThread s s.size _ index

lemma active_addThread : (s.addThread app).active app = insert s.size (s.active app) := by
  ext index
  rw [mem_active, thread_addThread, mem_insert, mem_active]
  change index < s.size + 1 ∧ _ ↔ _
  by_cases here : index = s.size
  · simp [here]
  · rw [if_neg here]
    have same : index < s.size + 1 ↔ index < s.size :=
      Nat.lt_succ_iff_lt_or_eq.trans (or_iff_left here)
    rw [same, or_iff_right here]

lemma active_addThread_of_ne {other : AppId} (different : other ≠ app) :
    (s.addThread app).active other = s.active other := by
  ext index
  rw [mem_active, thread_addThread, mem_active]
  change index < s.size + 1 ∧ _ ↔ _
  by_cases here : index = s.size
  · simp [here, Ne.symm different]
  · rw [if_neg here]
    have same : index < s.size + 1 ↔ index < s.size :=
      Nat.lt_succ_iff_lt_or_eq.trans (or_iff_left here)
    rw [same]

lemma card_addThread : ((s.addThread app).active app).card = (s.active app).card + 1 := by
  rw [active_addThread, card_insert_of_notMem]
  simp [active]

lemma active_markStopped (other : AppId) :
    (s.markStopped index).active other = (s.active other).erase index := by
  ext thread
  rw [mem_erase, mem_active, mem_active]
  change thread < s.size ∧ ((s.setThread index { s.threads index with stopped := true }).threads
    thread).app = other ∧ ((s.setThread index { s.threads index with stopped := true }).threads
    thread).stopped = false ↔ _
  rw [thread_setThread]
  by_cases here : thread = index
  · simp [here]
  · simp [here]

lemma info_setInfo (app : AppId) (info : AppInfo) (other : AppId) :
    (s.setInfo app info).appInfo other = if other = app then info else s.appInfo other :=
  update_apply s.appInfo app info other

lemma account_setInfo (app : AppId) (info : AppInfo) (other : AppId) :
    (s.setInfo app info).account other = if other = app then
        { s.account app with
          numThreads := info.numThreads
          numRuns := info.numRuns }
      else s.account other := by
  rw [account, info_setInfo]
  by_cases here : other = app
  · rw [if_pos here, if_pos here, here]
    rfl
  · rw [if_neg here, if_neg here]
    rfl

lemma account_addThread (app other : AppId) : (s.addThread app).account other =
    if other = app then { s.account app with active := (s.account app).active + 1 }
    else s.account other := by
  by_cases here : other = app
  · rw [if_pos here, here, account, card_addThread]
    rfl
  · rw [if_neg here, account, active_addThread_of_ne s here]
    rfl

lemma account_newThread (app other : AppId) : (s.newThread app).account other = if other = app then
      { s.account app with
        active := (s.account app).active + 1
        numThreads := (s.account app).numThreads + 1 }
    else s.account other := by
  rw [newThread, account_addThread]
  by_cases here : other = app
  · rw [if_pos here, if_pos here, account_setInfo, if_pos rfl]
    rfl
  · rw [if_neg here, if_neg here, account_setInfo, if_neg here]

lemma account_newFirstThread (app other : AppId) : (s.newFirstThread app).account other =
    if other = app then
      { s.account app with
        active := (s.account app).active + 1
        numThreads := 1
        begun := (s.account app).begun + 1 }
    else s.account other := by
  rw [newFirstThread, account_addThread]
  by_cases here : other = app
  · rw [if_pos here, if_pos here]
    simp only [account, setInfo, update_self]
    rfl
  · rw [if_neg here, if_neg here]
    simp only [account, setInfo, update_of_ne here]
    rfl

lemma account_markStopped (active : index ∈ s.active app) (other : AppId) :
    (s.markStopped index).account other = if other = app then
        { s.account app with
          active := (s.account app).active - 1
          numThreads := (s.account app).numThreads - 1 }
      else s.account other := by
  obtain ⟨-, rfl, -⟩ := mem_active.mp active
  have there : (s.markStopped index).appInfo other = _ :=
    info_setInfo (s.setThread index _) (s.threads index).app _ other
  rw [account, there, active_markStopped]
  by_cases here : other = (s.threads index).app
  · rw [if_pos here, if_pos here, here, card_erase_of_mem active]
    rfl
  · rw [if_neg here, if_neg here, erase_eq_of_notMem]
    · rfl
    · exact fun mem => here (mem_active.mp mem).2.1.symm

lemma account_countRun (app : AppId) (decision : Decision) (other : AppId) :
    account { s.countRun app with decisions := s.decisions ++ [(app, decision)] } other =
      if other = app then
        { s.account app with
          numRuns := (s.account app).numRuns + 1
          decisions := (s.account app).decisions + 1 }
      else s.account other := by
  have there : (s.countRun app).appInfo other = _ := info_setInfo s app _ other
  rw [account, there, List.countP_append]
  by_cases here : other = app
  · rw [if_pos here, if_pos here, here, List.countP_singleton, if_pos (by simp)]
    rfl
  · rw [if_neg here, if_neg here, List.countP_singleton, if_neg (by simpa using Ne.symm here)]
    rfl

end Accounts

/-! ## Invariant -/

structure Sound (s : Manager) : Prop where
  balanced : ∀ app, (s.account app).Balanced
  fresh : ∀ app, s.numApps ≤ app → s.begun app = 0
  inside : ∀ index other, (s.threads index).position = .aborting other → other < s.size

structure Calm (s s' : Manager) : Prop where
  size : s.size ≤ s'.size
  position : ∀ index other, (s'.threads index).position = .aborting other →
    (s.threads index).position = .aborting other

section Calm

variable {s s' s'' : Manager}

lemma calm_addThread (s : Manager) (app : AppId) : Calm s (s.addThread app) := by
  refine ⟨le_succ _, fun index other => ?_⟩
  rw [thread_addThread]
  split
  · rintro ⟨⟩
  · exact id

lemma calm_markStopped (s : Manager) (index : ThreadIndex) : Calm s (s.markStopped index) := by
  refine ⟨le_rfl, fun thread other => ?_⟩
  change ((s.setThread index _).threads thread).position = _ → _
  rw [thread_setThread]
  split
  · next here =>
    rw [here]
    exact id
  · exact id

lemma calm_newFirstThread (s : Manager) (app : AppId) : Calm s (s.newFirstThread app) :=
  ⟨(calm_addThread _ app).size, (calm_addThread _ app).position⟩

end Calm

def Ended (s : Manager) (app : AppId) : Prop :=
  ∀ index < s.size, (s.threads index).app = app → (s.threads index).stopped = true

instance (s : Manager) (app : AppId) : Decidable (Ended s app) := decidableBallLT _ _

/-- Of every application, all runs are counted once its threads have ended, and all but the last
one before; and every run that was counted was decided on once. -/
def Counted (s : Manager) : Prop :=
  ∀ app, (s.appInfo app).numRuns + (if Ended s app then 0 else 1) = s.begun app ∧
    (s.decisions.countP fun decision => decision.1 = app) = (s.appInfo app).numRuns

section Counted

variable {s : Manager} {app : AppId}

lemma ended_iff : Ended s app ↔ (s.account app).active = 0 := by
  change _ ↔ (s.active app).card = 0
  rw [Finset.card_eq_zero, eq_empty_iff_forall_notMem]
  refine forall_congr' fun index => ?_
  rw [mem_active]
  cases (s.threads index).stopped <;> simp

lemma counted_iff : Counted s ↔ ∀ app,
    (s.account app).numRuns + (if (s.account app).active = 0 then 0 else 1) =
      (s.account app).begun ∧ (s.account app).decisions = (s.account app).numRuns := by
  simp only [Counted, ended_iff]
  rfl

lemma Sound.counted (sound : Sound s) : Counted s :=
  counted_iff.mpr fun app => ⟨(sound.balanced app).runs, (sound.balanced app).decisions⟩

end Counted

/-! ## The end of a thread -/

section SignalDone

variable {s : Manager} {app : AppId} {index : ThreadIndex}

lemma balanced_newFirstThread (balanced : ∀ other, (s.account other).Balanced)
    (last : (s.account app).active = 0) (other : AppId) :
    ((s.newFirstThread app).account other).Balanced := by
  rw [account_newFirstThread]
  split
  · obtain ⟨-, runs, decisions⟩ := balanced app
    rw [if_pos last] at runs
    refine ⟨fun _ => ?_, ?_, decisions⟩
    · simp [last]
    · simp [last, ← runs]
  · exact balanced other

lemma Sound.newFirstThread (sound : Sound s) (last : (s.account app).active = 0)
    (known : app < s.numApps) : Sound (s.newFirstThread app) where
  balanced := balanced_newFirstThread sound.balanced last
  fresh other beyond := by
    have different : other ≠ app := by
      rintro rfl
      exact Nat.not_le_of_lt known beyond
    change update s.begun app (s.begun app + 1) other = 0
    rw [update_of_ne different]
    exact sound.fresh other beyond
  inside index other there := by
    have calm := calm_newFirstThread s app
    exact (sound.inside index other (calm.position index other there)).trans_le calm.size

lemma Sound.carryOut (sound : Sound s) (last : (s.account app).active = 0)
    (known : app < s.numApps) (decision : Decision) : Sound (s.carryOut app decision) := by
  cases decision with
  | stop =>
    refine ⟨?_, sound.fresh, sound.inside⟩
    rw [Manager.carryOut, account_stopAll]
    exact sound.balanced
  | restart => exact sound.newFirstThread last known
  | goOn => exact sound

variable {aborted : Bool}

/-- A thread that stops leaves its application, and the last one to do so ends the run. -/
lemma Sound.markStopped (sound : Sound s) (cfg : Config) (active : index ∈ s.active app)
    (regular : aborted = true → 1 < (s.account app).active) :
    Sound (if aborted = false ∧ ((s.markStopped index).appInfo app).numThreads = 0 then
      (s.markStopped index).finishRun cfg app else s.markStopped index) := by
  obtain ⟨threads, runs, decisions⟩ := sound.balanced app
  have positive : 0 < (s.account app).active := card_pos.mpr ⟨index, active⟩
  have count := threads positive
  have marked := account_markStopped s active
  have calm := calm_markStopped s index
  have here := marked app
  rw [if_pos rfl] at here
  have inside : ∀ thread other, ((s.markStopped index).threads thread).position = .aborting other →
      other < s.size :=
    fun thread other there => sound.inside thread other (calm.position thread other there)
  rw [if_neg (by omega)] at runs
  have known : app < s.numApps := by
    by_contra beyond
    have unknown : (s.account app).begun = 0 := sound.fresh app (Nat.le_of_not_lt beyond)
    omega
  have rest : ((s.markStopped index).appInfo app).numThreads = (s.account app).numThreads - 1 :=
    congrArg Account.numThreads here
  split
  · next ends =>
    have last : (s.account app).active - 1 = 0 := by omega
    rw [Manager.finishRun]
    generalize ((s.markStopped index).countRun app).decide cfg = decision
    have counted := account_countRun (s.markStopped index) app decision
    have settled : Sound { (s.markStopped index).countRun app with
        decisions := (s.markStopped index).decisions ++ [(app, decision)] } := by
      refine ⟨fun other => ?_, sound.fresh, inside⟩
      rw [counted]
      split
      · rw [here]
        refine ⟨fun some => ?_, ?_, congrArg (· + 1) decisions⟩
        · change 0 < (s.account app).active - 1 at some
          omega
        · change (s.account app).numRuns + 1 + (if (s.account app).active - 1 = 0 then 0 else 1) = _
          rw [if_pos last]
          exact runs
      · next different =>
        rw [marked, if_neg different]
        exact sound.balanced other
    refine settled.carryOut ?_ known decision
    rw [counted, if_pos rfl, here]
    exact last
  · next goes =>
    have more : 1 < (s.account app).active := by
      cases aborted with
      | true => exact regular rfl
      | false =>
        have left : (s.account app).numThreads - 1 ≠ 0 := fun none => goes ⟨rfl, rest.trans none⟩
        omega
    refine ⟨fun other => ?_, sound.fresh, inside⟩
    rw [marked]
    split
    · refine ⟨fun _ => ?_, ?_, decisions⟩
      · change (s.account app).numThreads - 1 = (s.account app).active - 1
        rw [count]
      · change (s.account app).numRuns + (if (s.account app).active - 1 = 0 then 0 else 1) = _
        rw [if_neg (by omega)]
        exact runs
    · exact sound.balanced other

lemma Sound.signalDone (sound : Sound s) (cfg : Config) (there : index < s.size)
    (regular : aborted = true → (s.threads index).stopped = false →
      ∃ other ∈ s.active (s.threads index).app, other ≠ index) :
    Sound (s.signalDone cfg index aborted) := by
  rw [Manager.signalDone]
  split
  · exact sound
  · next running =>
    have active : index ∈ s.active (s.threads index).app :=
      mem_active.mpr ⟨there, rfl, by simpa using running⟩
    refine sound.markStopped cfg active fun abort => ?_
    obtain ⟨other, also, different⟩ := regular abort (by simpa using running)
    exact one_lt_card.mpr ⟨index, active, other, also, different.symm⟩

lemma Sound.signalDone_last (sound : Sound s) (cfg : Config)
    (active : index ∈ s.active (s.threads index).app)
    (last : ¬ ∃ other ∈ s.active (s.threads index).app, other ≠ index) :
    ¬ Counted (s.signalDone cfg index true) := by
  have running : (s.threads index).stopped = false := (mem_active.mp active).2.2
  have single : (s.account (s.threads index).app).active = 1 := by
    refine card_eq_one.mpr ⟨index, eq_singleton_iff_unique_mem.mpr ⟨active, ?_⟩⟩
    intro other also
    by_contra different
    exact last ⟨other, also, different⟩
  rw [Manager.signalDone, if_neg (by simp [running]), if_neg (by simp), counted_iff]
  intro counted
  have after := (counted (s.threads index).app).1
  have before := (sound.balanced (s.threads index).app).runs
  rw [account_markStopped s active, if_pos rfl] at after
  rw [if_neg (by omega)] at before
  change (s.account (s.threads index).app).numRuns +
    (if (s.account (s.threads index).app).active - 1 = 0 then 0 else 1) =
      (s.account (s.threads index).app).begun at after
  rw [if_pos (by omega)] at after
  omega

end SignalDone

/-! ## Steps -/

def Manager.signals (s : Manager) : Event → Option (ThreadIndex × Bool)
  | .act _ _ => none
  | .goOn thread =>
    if thread < s.size then
      match (s.threads thread).position with
      | .aborting index => some (index, true)
      | .leaving aborted => some (thread, aborted)
      | _ => none
    else none

/-- The step neither marks the last active thread of an application as aborted, nor creates a
thread in an application that has ended. -/
structure Regular (s : Manager) (event : Event) : Prop where
  aborts : ∀ index, s.signals event = some (index, true) → (s.threads index).stopped = false →
    ∃ other ∈ s.active (s.threads index).app, other ≠ index
  creates : ∀ thread, event = .act thread .newThread → thread < s.size →
    (s.threads thread).position = .running → (s.active (s.threads thread).app).Nonempty

section Steps

variable {s : Manager} {cfg : Config} {event : Event}

variable {position : Position}

lemma Sound.setPosition (sound : Sound s) {index : ThreadIndex}
    (inside : ∀ other, position = .aborting other → other < s.size) :
    Sound (s.setPosition index position) := by
  refine ⟨?_, sound.fresh, fun thread other => ?_⟩
  · rw [account_setPosition]
    exact sound.balanced
  · change ((s.setThread index { s.threads index with position := position }).threads
      thread).position = _ → _
    rw [thread_setThread]
    split
    · exact inside other
    · exact sound.inside thread other

lemma calm_newThread (s : Manager) (app : AppId) : Calm s (s.newThread app) :=
  ⟨(calm_addThread _ app).size, (calm_addThread _ app).position⟩

lemma Sound.newThread (sound : Sound s) {app : AppId} (some : (s.active app).Nonempty) :
    Sound (s.newThread app) := by
  have positive : 0 < (s.account app).active := card_pos.mpr some
  refine ⟨fun other => ?_, sound.fresh, fun index other there => ?_⟩
  · rw [account_newThread]
    split
    · obtain ⟨threads, runs, decisions⟩ := sound.balanced app
      rw [if_neg (by omega)] at runs
      refine ⟨fun _ => congrArg (· + 1) (threads positive), ?_, decisions⟩
      simpa using runs
    · exact sound.balanced other
  · have calm := calm_newThread s app
    exact (sound.inside index other (calm.position index other there)).trans_le calm.size

lemma Sound.createApplication (sound : Sound s) : Sound s.createApplication := by
  obtain ⟨threads, runs, decisions⟩ := sound.balanced s.numApps
  have unknown : (s.account s.numApps).begun = 0 := sound.fresh s.numApps le_rfl
  have last : (s.account s.numApps).active = 0 := by
    by_contra some
    rw [if_neg some] at runs
    omega
  rw [if_pos last] at runs
  have registered : Sound (Manager.setInfo s.numApps ⟨1, 1, 0⟩ { s with
      numApps := s.numApps + 1
      numAppsNonfinish := s.numAppsNonfinish + 1 }) := by
    refine ⟨fun other => ?_, fun app beyond => sound.fresh app (le_of_succ_le beyond),
      sound.inside⟩
    rw [account_setInfo]
    split
    · refine ⟨fun some => absurd last (ne_of_gt some), ?_, decisions.trans ?_⟩
      · change 0 + (if (s.account s.numApps).active = 0 then 0 else 1) = (s.account s.numApps).begun
        rw [if_pos last, unknown]
      · change (s.account s.numApps).numRuns = 0
        omega
    · exact sound.balanced other
  exact registered.newFirstThread last (lt_succ_self _)

lemma Sound.setStop (sound : Sound s) (index : ThreadIndex) :
    Sound (s.setThread index { s.threads index with stop := true }) := by
  have same : (s.setThread index { s.threads index with stop := true }).account = s.account :=
    account_setThread s rfl rfl
  refine ⟨?_, sound.fresh, fun thread other => ?_⟩
  · rw [same]
    exact sound.balanced
  · rw [thread_setThread]
    split
    · next here =>
      rw [← here]
      exact sound.inside thread other
    · exact sound.inside thread other

lemma Sound.endRound (sound : Sound s) (caller index : ThreadIndex) :
    Sound (s.endRound caller index) := by
  rw [Manager.endRound]
  split
  · next there =>
    split
    · refine (sound.setStop index).setPosition ?_
      rintro _ ⟨⟩
      exact there
    · exact sound.setPosition (by rintro _ ⟨⟩)
  · exact sound.setPosition (by rintro _ ⟨⟩)

lemma Sound.step (sound : Sound s) (cfg : Config) (regular : Regular s event) :
    Sound (step cfg s event) := by
  cases event with
  | act thread action =>
    rw [TraceFrontend.step]
    split
    · next runs =>
      cases action with
      | exitGroup => exact sound.setPosition (by rintro _ ⟨⟩)
      | newThread => exact sound.newThread (regular.creates thread rfl runs.1 runs.2)
      | fork => exact sound.createApplication
      | leave => exact sound.setPosition (by rintro _ ⟨⟩)
    · exact sound
  | goOn thread =>
    have aborts := regular.aborts
    rw [TraceFrontend.step]
    rw [Manager.signals] at aborts
    split
    · next there =>
      rw [if_pos there] at aborts
      cases position : (s.threads thread).position with
      | running => exact sound
      | exited => exact sound
      | ending index => exact sound.endRound thread index
      | aborting index =>
        rw [position] at aborts
        have inside := sound.inside thread index position
        exact (sound.signalDone cfg inside fun _ => aborts index rfl).setPosition (by rintro _ ⟨⟩)
      | leaving aborted =>
        rw [position] at aborts
        refine (sound.signalDone cfg there fun abort => ?_).setPosition (by rintro _ ⟨⟩)
        exact aborts thread (by rw [abort])
    · exact sound

lemma counted_setPosition {index : ThreadIndex} :
    Counted (s.setPosition index position) ↔ Counted s := by
  rw [counted_iff, counted_iff, account_setPosition]

lemma step_of_signals {index : ThreadIndex} {aborted : Bool} (sound : Sound s) (cfg : Config)
    (signals : s.signals event = some (index, aborted)) : index < s.size ∧
      ∃ thread position, step cfg s event =
        (s.signalDone cfg index aborted).setPosition thread position := by
  cases event with
  | act thread action => cases signals
  | goOn thread =>
    rw [Manager.signals] at signals
    split at signals
    · next there =>
      rw [TraceFrontend.step, if_pos there]
      cases position : (s.threads thread).position with
      | aborting other =>
        rw [position] at signals
        cases signals
        exact ⟨sound.inside thread index position, thread, _, rfl⟩
      | leaving flag =>
        rw [position] at signals
        cases signals
        exact ⟨there, index, _, rfl⟩
      | running | ending | exited =>
        rw [position] at signals
        cases signals
    · cases signals

lemma Sound.step_irregular (sound : Sound s) (cfg : Config) (irregular : ¬ Regular s event) :
    ¬ Counted (TraceFrontend.step cfg s event) := by
  intro counted
  refine irregular ⟨?_, ?_⟩
  · intro index signals running
    by_contra last
    obtain ⟨there, thread, position, after⟩ := step_of_signals sound cfg signals
    rw [after, counted_setPosition] at counted
    exact sound.signalDone_last cfg (mem_active.mpr ⟨there, rfl, running⟩) last counted
  · rintro thread rfl there runs
    by_contra empty
    have last : (s.account (s.threads thread).app).active = 0 :=
      card_eq_zero.mpr (not_nonempty_iff_eq_empty.mp empty)
    have before := (sound.balanced (s.threads thread).app).runs
    rw [TraceFrontend.step, if_pos ⟨there, runs⟩, Manager.act, counted_iff] at counted
    have after := (counted (s.threads thread).app).1
    rw [account_newThread, if_pos rfl] at after
    rw [if_pos last] at before
    change (s.account (s.threads thread).app).numRuns +
      (if (s.account (s.threads thread).app).active + 1 = 0 then 0 else 1) =
        (s.account (s.threads thread).app).begun at after
    rw [if_neg (by omega)] at after
    omega

end Steps

/-! ## Runs -/

lemma numApps_init (apps : ℕ) (s : Manager) : (s.init apps).numApps = s.numApps := by
  induction apps with
  | zero => rfl
  | succ apps ih => exact ih

lemma Sound.init {s : Manager} (sound : Sound s) (none : ∀ app, (s.account app).active = 0)
    {apps : ℕ} (known : apps ≤ s.numApps) :
    Sound (s.init apps) ∧ ∀ app, apps ≤ app → ((s.init apps).account app).active = 0 := by
  induction apps with
  | zero => exact ⟨sound, fun app _ => none app⟩
  | succ apps ih =>
    obtain ⟨before, later⟩ := ih (le_of_succ_le known)
    refine ⟨before.newFirstThread (later apps le_rfl) ?_, fun app beyond => ?_⟩
    · rw [numApps_init]
      exact known
    · rw [Manager.init, account_newFirstThread, if_neg (ne_of_gt beyond)]
      exact later app (le_of_succ_le beyond)

lemma Sound.start (numApps : ℕ) : Sound (.start numApps) := by
  rw [Manager.start]
  refine And.left (Sound.init ⟨fun app => ⟨fun some => ?_, rfl, rfl⟩, fun _ _ => rfl, ?_⟩ ?_ le_rfl)
  · exact absurd some (lt_irrefl 0)
  · rintro _ _ ⟨⟩
  · exact fun _ => rfl

/-- Runs are counted, each one once and when its last thread ends, in exactly those runs of the
system in which no step marks the last active thread of an application as aborted, and none
creates a thread in an application that has ended. -/
theorem runs_counted_iff (cfg : Config) (numApps : ℕ) (events : List Event) :
    Runs.Throughout (step cfg) Counted (.start numApps) events ↔
      Runs.Guarded (step cfg) Regular (.start numApps) events := by
  refine Runs.throughout_iff_guarded (I := Sound) ?_ ?_ ?_ (.start numApps) events
  · exact fun s event sound regular => sound.step cfg regular
  · exact fun s sound => sound.counted
  · exact fun s event sound irregular => sound.step_irregular cfg irregular

/-- Two threads in `exit_group` that abort each other, and leave. -/
def mutualAbort : List Event :=
  [.act 0 .newThread, .act 0 .exitGroup, .act 1 .exitGroup, .goOn 0, .goOn 0, .goOn 1, .goOn 0,
    .goOn 1, .goOn 0, .goOn 1, .goOn 1, .act 0 .leave, .act 1 .leave, .goOn 0, .goOn 1]

/-- Both threads have left, and their run is neither counted nor decided on. -/
theorem mutualAbort_uncounted : let s := Runs.run (step ⟨false, false⟩) (.start 1) mutualAbort
    (s.threads 0).position = .exited ∧ (s.threads 1).position = .exited ∧ Ended s 0 ∧
      s.begun 0 = 1 ∧ (s.appInfo 0).numRuns = 0 ∧ s.decisions = [] ∧ ¬ Counted s := by
  refine ⟨by decide +kernel, by decide +kernel, by decide +kernel, by decide +kernel,
    by decide +kernel, by decide +kernel, fun counted => ?_⟩
  exact absurd (counted 0).1 (by decide +kernel)

end Sniper.TraceFrontend
