import Mathlib.Algebra.BigOperators.Group.Finset.Basic
import Sniper.Lib.Meter
import Sniper.Lib.Runs

/-!
# Routine statistics

The routine tracer follows the call stack of a thread. Whenever the routine on top of the stack
changes, the statistics that the thread has gathered are charged to the routine that ran, and the
next interval begins.

Two steps upset it. An exit from a routine that is not on the stack begins an interval without
ending one. At the end of the region of interest an interval that ends in the routine with address
zero is charged again to the routine below it.
-/

namespace Sniper.RoutineTracer

open Finset Function

abbrev Eip := ℕ

abbrev CallStack := List Eip

abbrev Values (T : Type*) := T → ℤ

structure Routine (T : Type*) where
  calls : ℕ
  values : Values T

variable {T : Type*}

namespace Routine

def new : Routine T := ⟨0, 0⟩

def update (rtn : Routine T) (calls : ℕ) (values : Values T) : Routine T :=
  ⟨rtn.calls + calls, rtn.values + values⟩

end Routine

/-- The profile that all threads share: routines by address, and by call stack. -/
structure Master (T : Type*) where
  known : Finset Eip
  routines : Eip → Routine T
  callstackRoutines : CallStack → Routine T

namespace Master

variable (m : Master T)

def find (eip : Eip) : Routine T := if eip ∈ m.known then m.routines eip else .new

def set (eip : Eip) (rtn : Routine T) : Master T :=
  { m with known := insert eip m.known, routines := update m.routines eip rtn }

def updateRoutine (eip : Eip) (calls : ℕ) (values : Values T) : Master T :=
  m.set eip ((m.find eip).update calls values)

def updateRoutineFull (stack : CallStack) (calls : ℕ) (values : Values T) : Master T :=
  match stack with
  | [] => m
  | top :: _ =>
    { m.set top (m.find top) with
      callstackRoutines := update m.callstackRoutines stack
        ((m.callstackRoutines stack).update calls values) }

def total : Values T := ∑ eip ∈ m.known, (m.routines eip).values

lemma total_set (eip : Eip) (rtn : Routine T) :
    (m.set eip rtn).total + (m.find eip).values = m.total + rtn.values := by
  have others : ∀ e ∈ m.known.erase eip,
      (update m.routines eip rtn e).values = (m.routines e).values := by
    intro e other
    rw [update_of_ne (ne_of_mem_erase other)]
  simp only [total, set, find]
  by_cases known : eip ∈ m.known
  · rw [insert_eq_of_mem known, if_pos known, ← add_sum_erase _ _ known,
      ← add_sum_erase _ _ known, sum_congr rfl others, update_self]
    abel
  · rw [sum_insert known, if_neg known, update_self]
    rw [erase_eq_of_notMem known] at others
    rw [sum_congr rfl others, add_comm rtn.values]
    exact add_zero _

lemma total_updateRoutine (eip : Eip) (calls : ℕ) (values : Values T) :
    (m.updateRoutine eip calls values).total = m.total + values := by
  refine add_right_cancel (b := (m.find eip).values) ?_
  rw [updateRoutine, total_set]
  change m.total + ((m.find eip).values + values) = m.total + values + (m.find eip).values
  abel

lemma total_updateRoutineFull (stack : CallStack) (calls : ℕ)
    (values : Values T) : (m.updateRoutineFull stack calls values).total = m.total := by
  cases stack with
  | nil => rfl
  | cons top rest => exact add_right_cancel (m.total_set top (m.find top))

end Master

/-! ### The thread -/

/-- A thread's tracer, with the current statistics and their growth over all periods in which
the call stack was not empty. -/
structure RtnThread (T : Type*) where
  inROI : Bool
  stack : CallStack
  lastEsp : ℕ
  valuesStart : Values T
  valuesStartFull : CallStack → Values T
  master : Master T
  stats : Values T
  spent : Values T

namespace RtnThread

variable (t : RtnThread T)

def functionBegin (_eip : Eip) : RtnThread T :=
  { t with
    valuesStart := t.stats
    valuesStartFull :=
      if t.stack = [] then t.valuesStartFull
      else update t.valuesStartFull t.stack t.stats }

def functionEnd (eip : Eip) (is_function_start : Bool) : RtnThread T :=
  let count := if is_function_start then 1 else 0
  let master := t.master.updateRoutine eip count (t.stats - t.valuesStart)
  { t with
    master := master.updateRoutineFull t.stack count (t.stats - t.valuesStartFull t.stack) }

def functionEnter (eip _callEip : Eip) : RtnThread T := t.functionBegin eip

def functionExit (eip : Eip) : RtnThread T := t.functionEnd eip true

def functionChildEnter (eip _child : Eip) : RtnThread T := t.functionEnd eip false

def functionChildExit (eip _child : Eip) : RtnThread T := t.functionBegin eip

def notify (callback : RtnThread T → RtnThread T) : RtnThread T :=
  if t.inROI then callback t else t

def notifyTop (callback : RtnThread T → Eip → RtnThread T) : RtnThread T :=
  match t.stack with
  | [] => t
  | top :: _ => t.notify fun t => callback t top

def suspend (eip_child : Eip) : RtnThread T :=
  t.notifyTop fun t top => t.functionChildEnter top eip_child

def resume (eip_child : Eip) : RtnThread T :=
  t.notifyTop fun t top => t.functionChildExit top eip_child

def leave (eip : Eip) : RtnThread T :=
  { t.notify fun t => t.functionExit eip with stack := t.stack.tail }

def routineEnter (eip esp callEip : Eip) : RtnThread T :=
  let t := t.suspend eip
  let t := { t with stack := eip :: t.stack, lastEsp := esp }
  t.notify fun t => t.functionEnter eip callEip

def unwind (eip : Eip) : CallStack → RtnThread T → RtnThread T
  | [], t => t
  | top :: rest, t =>
    if top = eip then t else unwind eip rest ((t.leave top).resume eip)

def unwindTo (eip : Eip) : Bool × RtnThread T :=
  if eip ∈ t.stack then (true, unwind eip t.stack t) else (false, t)

def routineExit (eip esp : Eip) : RtnThread T :=
  if t.stack = [] then t
  else
    let (found, t) := if t.stack.head? = some eip then (true, t) else t.unwindTo eip
    let t := if found then t.leave eip else t
    { t with lastEsp := esp }.resume eip

def routineAssert (eip esp : Eip) : RtnThread T :=
  if t.stack = [] then t.routineEnter eip esp 0
  else if t.stack.head? = some eip then t
  else if esp ≤ t.lastEsp then t.routineEnter eip esp 0
  else
    let (found, t) := t.unwindTo eip
    if found then { t with lastEsp := esp } else t.routineEnter eip esp 0

def enterAll : Eip → CallStack → RtnThread T → RtnThread T
  | _, [], t => t
  | parent, eip :: rest, t =>
    let t := if parent ≠ 0 then t.functionChildEnter parent eip else t
    enterAll eip rest (t.functionEnter eip 0)

def hookRoiBegin : RtnThread T := enterAll 0 t.stack.reverse t

def exitAll : Eip → CallStack → RtnThread T → RtnThread T
  | _, [], t => t
  | child, top :: rest, t =>
    let t := if child ≠ 0 then t.functionChildExit top child else t
    exitAll top rest { t.functionExit top with stack := rest }

def hookRoiEnd : RtnThread T :=
  { exitAll 0 t.stack t with stack := t.stack }

def advance (now : Values T) : RtnThread T :=
  { t with
    stats := now
    spent := if t.stack = [] then t.spent else t.spent + (now - t.stats) }

inductive Event where
  | enter (eip esp callEip : Eip)
  | exit (eip esp : Eip)
  | assert (eip esp : Eip)

def handle : Event → RtnThread T
  | .enter eip esp callEip => t.routineEnter eip esp callEip
  | .exit eip esp => t.routineExit eip esp
  | .assert eip esp => t.routineAssert eip esp

/-- The statistics reach the given values, and an event follows. -/
def step (timed : Values T × Event) : RtnThread T :=
  (t.advance timed.1).handle timed.2

end RtnThread

end Sniper.RoutineTracer
