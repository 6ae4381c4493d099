import Mathlib.Data.Int.Notation
import Sniper.Lib.Runs
import Sniper.System.Threads

/-!
# Blocking system calls of a trace

A trace does not say when a blocking system call returns. The thread is stalled when it enters the
call, and resumed when the trace goes on. `SyscallMdl::runExit` resumes a thread that it has
stalled. `TraceThread::unblock` calls it, and then resumes the thread once more. The calls of the
thread manager are noted here with the number of the system call that they are made for.
-/

namespace Sniper.TraceFrontend.Blocking

open Sniper.System List

/-- The system calls that `runEnter` tells apart. Those that other parts of the simulator answer
come with their answer. -/
inductive Syscall where
  | exitGroup
  | futex (answer : ℤ)
  | clockGettime
  | nanosleep
  | read
  | pause
  | select
  | poll
  | wait4
  | schedYield
  | schedSetaffinity (answer : ℤ)
  | schedGetaffinity (answer : ℤ)
  | write (fd count : ℕ)
  | other (number : ℕ)
  deriving DecidableEq, Repr

def Syscall.blocks : Syscall → Bool
  | .read | .pause | .select | .poll | .wait4 => true
  | _ => false

def Syscall.stallType (call : Syscall) : StallType :=
  if call = .pause then .pause else .syscall

structure Config where
  clockReplace : Bool
  suppressStdout : Bool
  suppressStderr : Bool

inductive ThreadCall where
  | stallThreadAsync (reason : StallType)
  | resumeThreadAsync
  deriving DecidableEq, Repr

def ThreadCall.isStall : ThreadCall → Bool
  | .stallThreadAsync _ => true
  | .resumeThreadAsync => false

structure Note where
  number : ℕ
  call : ThreadCall
  deriving DecidableEq, Repr

/-- `SyscallMdl`. The system calls so far and the notes are history; the last system call is the
current one. -/
structure SyscallMdl where
  entered : List Syscall
  notes : List Note
  emulated : Bool
  stalled : Bool
  inSyscall : Bool
  retVal : ℤ
  stdoutBytes : ℕ
  stderrBytes : ℕ
  deriving Repr

namespace SyscallMdl

def start : SyscallMdl := ⟨[], [], false, false, false, 0, 0, 0⟩

def note (call : ThreadCall) (mdl : SyscallMdl) : SyscallMdl :=
  { mdl with notes := mdl.notes ++ [⟨mdl.entered.length, call⟩] }

def emulate (answer : ℤ) (mdl : SyscallMdl) : SyscallMdl :=
  { mdl with retVal := answer, emulated := true }

/-- Output that may be suppressed, and is counted in any case. -/
def write (config : Config) (fd count : ℕ) (mdl : SyscallMdl) : SyscallMdl :=
  let mdl :=
    if fd = 1 ∧ config.suppressStdout ∨ fd = 2 ∧ config.suppressStderr then mdl.emulate count
    else mdl
  { mdl with
    stdoutBytes := if fd = 1 then mdl.stdoutBytes + count else mdl.stdoutBytes
    stderrBytes := if fd = 2 then mdl.stderrBytes + count else mdl.stderrBytes }

/-- `runEnter`, which says whether the thread is stalled. -/
def runEnter (config : Config) (call : Syscall) (mdl : SyscallMdl) : Bool × SyscallMdl :=
  let mdl := { mdl with entered := mdl.entered ++ [call], inSyscall := true }
  let mdl :=
    match call with
    | .futex answer => mdl.emulate answer
    | .clockGettime => if config.clockReplace then mdl.emulate 0 else mdl
    | .nanosleep => mdl.emulate 0
    | .read | .pause | .select | .poll | .wait4 =>
      { mdl.note (.stallThreadAsync call.stallType) with stalled := true }
    | .schedYield => mdl.emulate 0
    | .schedSetaffinity answer => mdl.emulate answer
    | .schedGetaffinity answer => mdl.emulate answer
    | .write fd count => mdl.write config fd count
    | .exitGroup | .other _ => mdl
  (mdl.stalled, mdl)

/-- `runExit`, which gives the value that the call returns. -/
def runExit (oldReturn : ℤ) (mdl : SyscallMdl) : ℤ × SyscallMdl :=
  let mdl := if mdl.stalled then { mdl.note .resumeThreadAsync with stalled := false } else mdl
  let retVal := if mdl.emulated then mdl.retVal else oldReturn
  (retVal, { mdl with retVal := retVal, emulated := false, inSyscall := false })

/-- How often the thread is stalled for the system call at this position. -/
def stalls (mdl : SyscallMdl) (k : ℕ) : ℕ :=
  mdl.notes.countP fun note => note.number = k + 1 ∧ note.call.isStall

def resumes (mdl : SyscallMdl) (k : ℕ) : ℕ :=
  mdl.notes.countP fun note => note.number = k + 1 ∧ note.call.isStall = false

end SyscallMdl

/-- `TraceThread`, as far as it depends on the system calls. -/
structure TraceThread where
  mdl : SyscallMdl
  blocked : Bool
  started : Bool
  /-- The first instruction was read, so the loop of `run` is reached. -/
  haveFirst : Bool
  deriving Repr

/-- What the trace calls back for. The other records, such as new threads and routines, have
nothing to do with the system calls. -/
inductive TraceEvent where
  | instructionCount
  | syscall (call : Syscall)
  | emulation
  | instruction
  | other
  deriving DecidableEq, Repr

namespace TraceThread

def start : TraceThread := ⟨.start, false, false, false⟩

def unblock (t : TraceThread) : TraceThread :=
  { t with
    mdl := (t.mdl.runExit 0).2.note .resumeThreadAsync
    blocked := false }

def goOn (t : TraceThread) : TraceThread := if t.blocked then t.unblock else t

def handleSyscallFunc (config : Config) (call : Syscall) (t : TraceThread) : ℤ × TraceThread :=
  let t := t.goOn
  if call = .exitGroup then (0, t)
  else
    let entered := t.mdl.runEnter config call
    if entered.1 then (0, { t with mdl := entered.2, blocked := true })
    else
      let exited := entered.2.runExit 0
      (exited.1, { t with mdl := exited.2, blocked := false })

def handleInstructionCountFunc (t : TraceThread) : TraceThread :=
  { t with started := true }.goOn

def handleEmuFunc (t : TraceThread) : TraceThread := t.goOn

def handleInstruction (t : TraceThread) : TraceThread :=
  if t.haveFirst then t.goOn else { t with haveFirst := true, started := true }

def step (config : Config) (t : TraceThread) : TraceEvent → TraceThread
  | .instructionCount => t.handleInstructionCountFunc
  | .syscall call => (t.handleSyscallFunc config call).2
  | .emulation => t.handleEmuFunc
  | .instruction => t.handleInstruction
  | .other => t

def after (config : Config) (events : List TraceEvent) : TraceThread :=
  Runs.run (step config) start events

end TraceThread

/-- The system calls that are entered in a trace, in their order. -/
def syscallsOf (events : List TraceEvent) : List Syscall :=
  events.filterMap fun event =>
    match event with
    | .syscall call => if call = .exitGroup then none else some call
    | _ => none

/-! ## What is noted -/

namespace SyscallMdl

section Notes

variable (mdl : SyscallMdl) (config : Config) (call : Syscall)

lemma entered_runEnter : (mdl.runEnter config call).2.entered = mdl.entered ++ [call] := by
  cases call with
  | clockGettime =>
    simp only [runEnter]
    split <;> rfl
  | write fd count =>
    simp only [runEnter, write]
    split <;> rfl
  | _ => rfl

lemma notes_runEnter : (mdl.runEnter config call).2.notes = mdl.notes ++
    if call.blocks then [⟨mdl.entered.length + 1, .stallThreadAsync call.stallType⟩] else [] := by
  cases call with
  | clockGettime =>
    simp only [runEnter]
    split <;> exact (append_nil _).symm
  | write fd count =>
    simp only [runEnter, write]
    split <;> exact (append_nil _).symm
  | _ => simp [runEnter, Syscall.blocks, emulate, note]

lemma stalled_runEnter : (mdl.runEnter config call).2.stalled = (mdl.stalled || call.blocks) := by
  cases call with
  | clockGettime =>
    simp only [runEnter]
    split <;> exact (Bool.or_false _).symm
  | write fd count =>
    simp only [runEnter, write]
    split <;> exact (Bool.or_false _).symm
  | _ => simp [runEnter, Syscall.blocks, emulate, note]

lemma entered_runExit (oldReturn : ℤ) : (mdl.runExit oldReturn).2.entered = mdl.entered := by
  rw [runExit]
  split <;> rfl

lemma notes_runExit (oldReturn : ℤ) : (mdl.runExit oldReturn).2.notes = mdl.notes ++
    if mdl.stalled then [⟨mdl.entered.length, .resumeThreadAsync⟩] else [] := by
  rw [runExit]
  split
  · next stalled => rfl
  · next runs => exact (append_nil _).symm

lemma stalled_runExit (oldReturn : ℤ) : (mdl.runExit oldReturn).2.stalled = false := by
  rw [runExit]
  split
  · rfl
  · next runs => exact eq_false_of_ne_true runs

end Notes

def blocksAt (mdl : SyscallMdl) (k : ℕ) : Bool := (mdl.entered[k]?).any Syscall.blocks

structure Accounts (blocked : Bool) (mdl : SyscallMdl) : Prop where
  stalled : mdl.stalled = blocked
  last : blocked = true → ∃ before call, mdl.entered = before ++ [call] ∧ call.blocks = true
  stalls : ∀ k, mdl.stalls k = if mdl.blocksAt k then 1 else 0
  resumes : ∀ k, mdl.resumes k =
    if mdl.blocksAt k ∧ ¬ (blocked = true ∧ k + 1 = mdl.entered.length) then 2 else 0

section Accounts

variable {mdl mdl' : SyscallMdl} {call : Syscall} {k : ℕ}

variable {new : List Note}

open SyscallMdl

lemma stalls_append (notes : mdl'.notes = mdl.notes ++ new) : mdl'.stalls k =
      mdl.stalls k + new.countP fun note => note.number = k + 1 ∧ note.call.isStall := by
  rw [stalls, notes, countP_append, stalls]

lemma resumes_append (notes : mdl'.notes = mdl.notes ++ new) : mdl'.resumes k =
      mdl.resumes k + new.countP fun note => note.number = k + 1 ∧ note.call.isStall = false := by
  rw [resumes, notes, countP_append, resumes]

lemma blocksAt_append (entered : mdl'.entered = mdl.entered ++ [call]) : mdl'.blocksAt k =
      if k = mdl.entered.length then call.blocks else mdl.blocksAt k := by
  rw [blocksAt, entered, blocksAt]
  rcases Nat.lt_trichotomy k mdl.entered.length with before | rfl | behind
  · rw [getElem?_append_left before, if_neg (Nat.ne_of_lt before)]
  · simp
  · have none : mdl.entered[k]? = none := getElem?_eq_none (Nat.le_of_lt behind)
    have none' : (mdl.entered ++ [call])[k]? = Option.none :=
      getElem?_eq_none (by rw [length_append]; exact behind)
    rw [none, none', if_neg (Nat.ne_of_gt behind)]

lemma blocksAt_last (blocks : call.blocks = true) {before : List Syscall}
    (entered : mdl.entered = before ++ [call]) (last : k + 1 = mdl.entered.length) :
    mdl.blocksAt k = true := by
  have here : k = before.length := by simpa [entered] using last
  simp [blocksAt, entered, here, blocks]

lemma Accounts.start : Accounts false SyscallMdl.start where
  stalled := rfl
  last := by simp
  stalls := by simp [SyscallMdl.stalls, blocksAt, SyscallMdl.start]
  resumes := by simp [SyscallMdl.resumes, blocksAt, SyscallMdl.start]

open ThreadCall

lemma Accounts.unblock (accounts : Accounts true mdl) :
    Accounts false ((mdl.runExit 0).2.note .resumeThreadAsync) := by
  have entered := entered_runExit mdl 0
  have notes : ((mdl.runExit 0).2.note .resumeThreadAsync).notes = mdl.notes ++
      [⟨mdl.entered.length, .resumeThreadAsync⟩, ⟨mdl.entered.length, .resumeThreadAsync⟩] := by
    simp [note, notes_runExit, entered, accounts.stalled]
  have same : ∀ k, ((mdl.runExit 0).2.note .resumeThreadAsync).blocksAt k = mdl.blocksAt k :=
    fun k => congrArg (fun entered => (entered[k]?).any Syscall.blocks) entered
  obtain ⟨before, call, ends, blocks⟩ := accounts.last rfl
  refine ⟨stalled_runExit mdl 0, by simp, fun k => ?_, fun k => ?_⟩
  · rw [stalls_append notes, accounts.stalls, same]
    simp [isStall]
  · rw [resumes_append notes, accounts.resumes, same]
    by_cases last : k + 1 = mdl.entered.length
    · simp [isStall, last, blocksAt_last blocks ends last]
    · simp [isStall, last, Ne.symm last]

lemma Accounts.runEnter (accounts : Accounts false mdl) (config : Config) (call : Syscall) :
    Accounts call.blocks (mdl.runEnter config call).2 := by
  have entered := entered_runEnter mdl config call
  have notes := notes_runEnter mdl config call
  -- nothing is noted yet for the position of the new call
  have fresh : mdl.blocksAt mdl.entered.length = false := by simp [blocksAt]
  refine ⟨?_, fun blocks => ⟨mdl.entered, call, entered, blocks⟩, fun k => ?_, fun k => ?_⟩
  · rw [stalled_runEnter, accounts.stalled, Bool.false_or]
  · rw [stalls_append notes, accounts.stalls, blocksAt_append entered]
    by_cases here : k = mdl.entered.length
    · cases blocks : call.blocks with
      | true => simp [isStall, here, fresh]
      | false => simp [here, fresh]
    · cases blocks : call.blocks with
      | true => simp [here, Ne.symm here]
      | false => simp [here]
  · rw [resumes_append notes, accounts.resumes, blocksAt_append entered, entered]
    by_cases here : k = mdl.entered.length
    · cases blocks : call.blocks with
      | true => simp [isStall, here, fresh]
      | false => simp [here, fresh]
    · cases blocks : call.blocks with
      | true => simp [isStall, here]
      | false => simp [here]

lemma Accounts.runExit (accounts : Accounts false mdl) (oldReturn : ℤ) :
    Accounts false (mdl.runExit oldReturn).2 := by
  have entered := entered_runExit mdl oldReturn
  have notes : (mdl.runExit oldReturn).2.notes = mdl.notes ++ [] := by
    simp [notes_runExit, accounts.stalled]
  have same : ∀ k, (mdl.runExit oldReturn).2.blocksAt k = mdl.blocksAt k :=
    fun k => congrArg (fun entered => (entered[k]?).any Syscall.blocks) entered
  refine ⟨stalled_runExit mdl oldReturn, by simp, fun k => ?_, fun k => ?_⟩
  · rw [stalls_append notes, accounts.stalls, same]
    rfl
  · rw [resumes_append notes, accounts.resumes, same]
    simp

end Accounts

end SyscallMdl

/-! ## Whole traces -/

namespace TraceThread

variable {t : TraceThread} (config : Config)

def Counted (t : TraceThread) : Prop := t.mdl.Accounts t.blocked

lemma Counted.goOn (counted : t.Counted) : t.goOn.Counted ∧ t.goOn.blocked = false := by
  rw [TraceThread.goOn]
  split
  · next blocked =>
    rw [Counted, blocked] at counted
    exact ⟨counted.unblock, rfl⟩
  · next runs => exact ⟨counted, eq_false_of_ne_true runs⟩

lemma Counted.handleSyscallFunc (counted : t.Counted) (call : Syscall) :
    (t.handleSyscallFunc config call).2.Counted := by
  obtain ⟨counted, runs⟩ := counted.goOn
  rw [Counted, runs] at counted
  rw [TraceThread.handleSyscallFunc]
  dsimp only
  split
  · rwa [Counted, runs]
  · have entered := counted.runEnter config call
    split
    · next stalls =>
      have blocks : call.blocks = true := entered.stalled.symm.trans stalls
      rwa [blocks] at entered
    · next passes =>
      have passes : call.blocks = false := entered.stalled.symm.trans (eq_false_of_ne_true passes)
      rw [passes] at entered
      exact entered.runExit 0

lemma Counted.step (counted : t.Counted) (event : TraceEvent) : (t.step config event).Counted := by
  cases event with
  | instructionCount =>
    have started : { t with started := true }.Counted := counted
    exact started.goOn.1
  | syscall call => exact counted.handleSyscallFunc config call
  | emulation => exact counted.goOn.1
  | instruction =>
    rw [TraceThread.step, handleInstruction]
    split
    · exact counted.goOn.1
    · exact counted
  | other => exact counted

lemma counted_after (events : List TraceEvent) : (after config events).Counted := by
  refine Runs.run_invariant (I := Counted) (fun t event counted => ?_) ?_ events
  · exact counted.step config event
  · exact SyscallMdl.Accounts.start

lemma entered_goOn (t : TraceThread) : t.goOn.mdl.entered = t.mdl.entered := by
  rw [goOn]
  split
  · exact t.mdl.entered_runExit 0
  · rfl

lemma entered_step (t : TraceThread) (event : TraceEvent) :
    (t.step config event).mdl.entered = t.mdl.entered ++ syscallsOf [event] := by
  cases event with
  | instructionCount => exact (entered_goOn _).trans (append_nil _).symm
  | syscall call =>
    simp only [step, handleSyscallFunc, syscallsOf, filterMap_cons, filterMap_nil]
    by_cases ends : call = .exitGroup
    · simp [ends, entered_goOn]
    · rw [if_neg ends, if_neg ends, ← entered_goOn t]
      split
      · exact SyscallMdl.entered_runEnter _ config call
      · exact (SyscallMdl.entered_runExit _ 0).trans (SyscallMdl.entered_runEnter _ config call)
  | emulation => exact (entered_goOn t).trans (append_nil _).symm
  | instruction =>
    refine Eq.trans ?_ (append_nil _).symm
    rw [step, handleInstruction]
    split
    · exact entered_goOn t
    · rfl
  | other => exact (append_nil _).symm

lemma entered_run (t : TraceThread) (events : List TraceEvent) :
    (Runs.run (step config) t events).mdl.entered = t.mdl.entered ++ syscallsOf events := by
  induction events generalizing t with
  | nil => exact (append_nil _).symm
  | cons event events ih =>
    rw [Runs.run_cons, ih, entered_step, append_assoc]
    congr 1
    exact (filterMap_append (l := [event])).symm

lemma blocking_counts {events : List TraceEvent} {k : ℕ} {call : Syscall}
    (entered : (syscallsOf events)[k]? = some call) (blocks : call.blocks = true) :
    (after config events).mdl.stalls k = 1 ∧ ((after config events).mdl.resumes k = 2 ∨
        (after config events).blocked = true ∧ (after config events).mdl.resumes k = 0) := by
  have counted := counted_after config events
  have all : (after config events).mdl.entered = syscallsOf events :=
    entered_run config start events
  have here : (after config events).mdl.blocksAt k = true := by
    simp [SyscallMdl.blocksAt, all, entered, blocks]
  refine ⟨by rw [counted.stalls, if_pos here], ?_⟩
  rw [counted.resumes, here]
  by_cases still : (after config events).blocked = true ∧
      k + 1 = (after config events).mdl.entered.length
  · exact .inr ⟨still.1, by simp [still]⟩
  · exact .inl (by simp [still])

/-- Each blocking system call of a trace stalls and resumes the thread exactly once if and only if
there is no such call in the trace. -/
theorem blocking_once_iff (config : Config) (events : List TraceEvent) :
    (∀ k call, (syscallsOf events)[k]? = some call → call.blocks = true →
        (after config events).mdl.stalls k = 1 ∧ (after config events).mdl.resumes k = 1) ↔
      ∀ call, TraceEvent.syscall call ∈ events → call.blocks = false := by
  constructor
  · intro once call mem
    by_contra blocks
    have blocks := eq_true_of_ne_false blocks
    have listed : call ∈ syscallsOf events := by
      refine List.mem_filterMap.mpr ⟨.syscall call, mem, if_neg ?_⟩
      rintro rfl
      cases blocks
    obtain ⟨k, entered⟩ := List.mem_iff_getElem?.mp listed
    have one := (once k call entered blocks).2
    rcases (blocking_counts config entered blocks).2 with two | ⟨-, none⟩
    · omega
    · omega
  · intro none k call entered blocks
    obtain ⟨event, mem, listed⟩ := List.mem_filterMap.mp (mem_of_getElem? entered)
    cases event with
    | syscall call' =>
      obtain ⟨-, ⟨⟩⟩ | ⟨-, ⟨⟩⟩ := ite_eq_iff.mp listed
      rw [none call mem] at blocks
      cases blocks
    | _ => cases listed

/-- A read, after which the trace goes on with an instruction count: the thread is stalled once and
resumed twice. -/
theorem read_resumesTwice :
    (after ⟨false, false, false⟩ [.syscall .read, .instructionCount]).mdl.notes =
      [⟨1, .stallThreadAsync .syscall⟩, ⟨1, .resumeThreadAsync⟩, ⟨1, .resumeThreadAsync⟩] := by
  decide

end TraceThread

end Sniper.TraceFrontend.Blocking
