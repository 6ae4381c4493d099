import Mathlib.Data.BitVec
import Mathlib.Order.Lattice.Nat
import Sniper.Lib.Runs

/-!
# The windows of the interval model

`Windows` holds the uops that wait for dispatch and, in the old window, those that were dispatched
last. The critical path through the old window grows as uops are dispatched. A uop that would make
it much longer is to be charged as a latency of its own instead: `updateCriticalPath` adds the
latency, and the old window starts anew where the uop ends.

Times are 64-bit counts of cycles, and wrap. The lists stand for the ring `m_double_window`; the
dependencies of the uops and the functional units are left out.
-/

namespace Sniper.PerformanceModel.Interval

abbrev Cycles := BitVec 64

/-- `CpContrType`. -/
inductive CpContrType where
  | fpAddSub
  | fpMulDiv
  | loadL1
  | loadL2
  | loadL3
  | loadLX
  | store
  | generic
  | branch
  deriving DecidableEq, Repr

structure WindowEntry where
  execTime : Cycles
  cpContr : Cycles
  /-- `getCpContrType`. -/
  contrType : CpContrType
  deriving DecidableEq, Repr

/-- `WindowEntry::initialize`. -/
def WindowEntry.init (contrType : CpContrType) : WindowEntry := ⟨0, 0, contrType⟩

structure Windows where
  windowSize : ℕ
  /-- `CoreModel::getLongLatencyCutoff`, an `unsigned int`. -/
  longLatencyCutoff : BitVec 32
  /-- Oldest first. -/
  oldWindow : List WindowEntry
  /-- The next to be dispatched first. -/
  window : List WindowEntry
  criticalPathHead : Cycles
  criticalPathTail : Cycles
  cpcontrByType : CpContrType → Cycles
  cpcontrTotal : Cycles

variable (entry : WindowEntry) (windows : Windows)

namespace Windows

def create (windowSize : ℕ) (longLatencyCutoff : BitVec 32) : Windows where
  windowSize := windowSize
  longLatencyCutoff := longLatencyCutoff
  oldWindow := []
  window := []
  criticalPathHead := 0
  criticalPathTail := 0
  cpcontrByType := fun _ => 0
  cpcontrTotal := 0

def clearFunctionalUnitStats : Windows :=
  { windows with cpcontrByType := fun _ => 0, cpcontrTotal := 0 }

def addFunctionalUnitStats : Windows :=
  { windows with
    cpcontrByType := Function.update windows.cpcontrByType entry.contrType
      (windows.cpcontrByType entry.contrType + entry.cpContr)
    cpcontrTotal := windows.cpcontrTotal + entry.cpContr }

def removeFunctionalUnitStats : Windows :=
  { windows with
    cpcontrByType := Function.update windows.cpcontrByType entry.contrType
      (windows.cpcontrByType entry.contrType - entry.cpContr)
    cpcontrTotal := windows.cpcontrTotal - entry.cpContr }

/-- `add`, to a window that is not full. -/
def add (contrType : CpContrType) (windows : Windows) : Windows :=
  if windows.window.length = windows.windowSize then windows
  else { windows with window := windows.window ++ [.init contrType] }

def retire : Windows :=
  if windows.oldWindow.length = windows.windowSize then
    match windows.oldWindow with
    | [] => windows
    | oldest :: rest =>
      { windows.removeFunctionalUnitStats oldest with
        criticalPathHead :=
          if windows.criticalPathHead < oldest.execTime then oldest.execTime
          else windows.criticalPathHead
        oldWindow := rest }
  else windows

/-- `dispatchInstruction`: the uop at the head of the window goes to the old window. -/
def dispatchInstruction : Windows :=
  match windows.window with
  | [] => windows
  | entry :: rest =>
    let windows := windows.retire.addFunctionalUnitStats entry
    { windows with window := rest, oldWindow := windows.oldWindow ++ [entry] }

def clearOldWindow (newCpHead : Cycles) (windows : Windows) : Windows :=
  { windows.clearFunctionalUnitStats with
    criticalPathHead := newCpHead
    criticalPathTail := newCpHead
    oldWindow := [] }

/-- `longLatencyOperationLatency`. The last branch returns `true`. -/
def longLatencyOperationLatency : Cycles :=
  if entry.execTime < windows.criticalPathTail then 0
  else if entry.execTime - windows.criticalPathTail < windows.longLatencyCutoff.setWidth 64 then 0
  else (BitVec.ofBool true).setWidth 64

/-- `updateCriticalPathTail`, which also notes what the uop adds to the path. -/
def updateCriticalPathTail : WindowEntry × Windows :=
  if windows.criticalPathTail < entry.execTime then
    ({ entry with cpContr := entry.execTime - windows.criticalPathTail },
      { windows with criticalPathTail := entry.execTime })
  else (entry, windows)

end Windows

/-- `IntervalTimer`, with the part of the CPI stack that long latencies are charged to. -/
structure IntervalTimer where
  windows : Windows
  cpiLongLatency : BitVec 64

namespace IntervalTimer

/-- `updateCriticalPath`, for a uop with this period and for the caller's total of latencies. -/
def updateCriticalPath (period : BitVec 64) (latency : Cycles)
    (timer : IntervalTimer) : WindowEntry × Cycles × IntervalTimer :=
  let lll := timer.windows.longLatencyOperationLatency entry
  if lll = 0 then
    let (entry, windows) := timer.windows.updateCriticalPathTail entry
    (entry, latency, { timer with windows := windows })
  else
    (entry, latency + lll,
      { windows := timer.windows.clearOldWindow entry.execTime
        cpiLongLatency := timer.cpiLongLatency + lll * period })

/-! ## Conservation of time -/

/-- What the uop makes of the path and of the caller's total accounts for its execution time: the
path grows and nothing is charged, or the extension is charged and the old window starts anew. -/
def Conserves (latency : Cycles) (timer : IntervalTimer)
    (result : WindowEntry × Cycles × IntervalTimer) : Prop :=
  (result.2.1 = latency ∧ result.2.2.windows.criticalPathTail.toNat =
      max timer.windows.criticalPathTail.toNat entry.execTime.toNat) ∨
    (result.2.1 - latency = entry.execTime - timer.windows.criticalPathTail ∧
      result.2.2.windows.oldWindow = [] ∧
      result.2.2.windows.criticalPathHead = entry.execTime ∧
      result.2.2.windows.criticalPathTail = entry.execTime)

/-- The extension is below the cut-off, or is the one cycle that the code charges. -/
def Charged : Prop :=
  entry.execTime < windows.criticalPathTail ∨
    entry.execTime - windows.criticalPathTail < windows.longLatencyCutoff.setWidth 64 ∨
    entry.execTime - windows.criticalPathTail = 1

variable {entry : WindowEntry} {period : BitVec 64} {latency : Cycles} {timer : IntervalTimer}

lemma conserves_of_short (short : timer.windows.longLatencyOperationLatency entry = 0) :
    Conserves entry latency timer (timer.updateCriticalPath entry period latency) := by
  refine .inl ?_
  rw [updateCriticalPath, Windows.updateCriticalPathTail]
  rw [if_pos short]
  refine ⟨rfl, ?_⟩
  by_cases grows : timer.windows.criticalPathTail < entry.execTime
  · rw [if_pos grows]
    exact (max_eq_right (BitVec.lt_def.mp grows).le).symm
  · rw [if_neg grows]
    exact (max_eq_left (by simpa [BitVec.lt_def] using grows)).symm

lemma conserves_of_long (long : timer.windows.longLatencyOperationLatency entry = 1) :
    Conserves entry latency timer (timer.updateCriticalPath entry period latency) ↔
      entry.execTime - timer.windows.criticalPathTail = 1 := by
  have charged : timer.updateCriticalPath entry period latency = (entry, latency + 1,
      ⟨timer.windows.clearOldWindow entry.execTime, timer.cpiLongLatency + 1 * period⟩) := by
    rw [updateCriticalPath, long]
    rfl
  rw [charged, Conserves]
  constructor
  · rintro (⟨same, -⟩ | ⟨extension, -⟩)
    · bv_omega
    · bv_omega
  · intro extension
    exact .inr ⟨by bv_omega, rfl, rfl, rfl⟩

/-- Time is conserved exactly when the extension is below the cut-off or is one cycle. -/
theorem updateCriticalPath_conserves_iff (entry : WindowEntry) (period : BitVec 64)
    (latency : Cycles) (timer : IntervalTimer) :
    Conserves entry latency timer (timer.updateCriticalPath entry period latency) ↔
      Charged entry timer.windows := by
  by_cases below : entry.execTime < timer.windows.criticalPathTail
  · have short : timer.windows.longLatencyOperationLatency entry = 0 := if_pos below
    exact iff_of_true (conserves_of_short short) (.inl below)
  by_cases cut : entry.execTime - timer.windows.criticalPathTail <
      timer.windows.longLatencyCutoff.setWidth 64
  · have short : timer.windows.longLatencyOperationLatency entry = 0 :=
      (if_neg below).trans (if_pos cut)
    exact iff_of_true (conserves_of_short short) (.inr (.inl cut))
  · have long : timer.windows.longLatencyOperationLatency entry = 1 :=
      (if_neg below).trans (if_neg cut)
    rw [conserves_of_long long, Charged]
    exact ⟨fun one => Or.inr (.inr one), fun either =>
      (either.resolve_left below).resolve_left cut⟩

/-- A uop that ends 100 cycles behind the path, with a cut-off of 30, is charged as one cycle. -/
theorem hundredCycles_lost :
    let timer : IntervalTimer := ⟨{ Windows.create 96 30 with criticalPathTail := 10 }, 0⟩
    let entry : WindowEntry := ⟨110, 0, .generic⟩
    (timer.updateCriticalPath entry 1 0).2.1 = 1 ∧
      (timer.updateCriticalPath entry 1 0).2.2.windows.criticalPathTail = 110 ∧
      entry.execTime - timer.windows.criticalPathTail = 100 ∧
      ¬ Conserves entry 0 timer (timer.updateCriticalPath entry 1 0) := by
  refine ⟨by decide, by decide, by decide, ?_⟩
  rintro (⟨same, -⟩ | ⟨extension, -⟩)
  · exact absurd same (by decide)
  · exact absurd extension (by decide)

end IntervalTimer

end Sniper.PerformanceModel.Interval
