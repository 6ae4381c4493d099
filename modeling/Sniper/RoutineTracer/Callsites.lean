import Sniper.RoutineTracer.FunctionStats

/-!
# Call sites of the routines on the stack

The memory tracker follows the call stack with a routine tracer of its own, which keeps the call
sites of the routines while the thread is in the region of interest. Its callbacks for the child
routines are empty.
-/

namespace Sniper.RoutineTracer.Callsites

open List

/-- The tops of the stacks come first. -/
structure RoutineTracerThread where
  stack : CallStack
  lastEsp : Eip
  callsiteStack : CallStack
  inROI : Bool

inductive Event where
  | routine (e : RtnThread.Event)
  | setPerformance (enabled : Bool)

namespace RoutineTracerThread

def create (lastEsp : Eip) (inROI : Bool) : RoutineTracerThread := ⟨[], lastEsp, [], inROI⟩

def functionEnter (callEip : Eip) (t : RoutineTracerThread) : RoutineTracerThread :=
  { t with callsiteStack := callEip :: t.callsiteStack }

/-- `none` is a `pop_back` of an empty vector or a failed assertion, here and below. -/
def functionExit (t : RoutineTracerThread) : Option RoutineTracerThread :=
  match t.callsiteStack with
  | [] => none
  | _ :: rest => some { t with callsiteStack := rest }

def routineEnter (eip esp callEip : Eip) (t : RoutineTracerThread) : RoutineTracerThread :=
  let t := { t with stack := eip :: t.stack, lastEsp := esp }
  if t.inROI then t.functionEnter callEip else t

/-- The routine on top of the stack is exited and popped. -/
def leave (t : RoutineTracerThread) : Option RoutineTracerThread :=
  (if t.inROI then t.functionExit else some t).bind fun t =>
    match t.stack with
    | [] => none
    | _ :: rest => some { t with stack := rest }

/-- The inner loop of `unwindTo`, along the stack. -/
def unwind (eip : Eip) : CallStack → RoutineTracerThread → Option RoutineTracerThread
  | [], _ => none
  | top :: rest, t => if top = eip then some t else t.leave.bind (unwind eip rest)

def routineExit (eip esp : Eip) (t : RoutineTracerThread) : Option RoutineTracerThread :=
  if t.stack = [] then some t
  else (if eip ∈ t.stack then (unwind eip t.stack t).bind leave else some t).map
    ({ · with lastEsp := esp })

def routineAssert (eip esp : Eip) (t : RoutineTracerThread) : Option RoutineTracerThread :=
  if t.stack = [] then some (t.routineEnter eip esp 0)
  else if t.stack.head? = some eip then some t
  else if esp ≤ t.lastEsp then some (t.routineEnter eip esp 0)
  else
    (if eip ∈ t.stack then (unwind eip t.stack t).map ({ · with lastEsp := esp })
      else some (t.routineEnter eip esp 0)).bind fun t =>
    if t.stack.head? = some eip then some t else none

variable (t : RoutineTracerThread)

def hookRoiBegin : RoutineTracerThread :=
  t.stack.foldr (fun _ => functionEnter 0) t

/-- The loop pops the stack, which is restored after it. -/
def hookRoiEnd : Option RoutineTracerThread :=
  t.stack.foldlM (fun t _ => t.functionExit) t

def step : Event → Option RoutineTracerThread
  | .routine (.enter eip esp callEip) => some (t.routineEnter eip esp callEip)
  | .routine (.exit eip esp) => t.routineExit eip esp
  | .routine (.assert eip esp) => t.routineAssert eip esp
  | .setPerformance enabled =>
    if t.inROI = enabled then some t
    else if enabled then some { t with inROI := true }.hookRoiBegin
    else { t with inROI := false }.hookRoiEnd

def InStep : Prop :=
  t.callsiteStack.length = if t.inROI then t.stack.length else 0

variable {t : RoutineTracerThread} {eip : Eip}

lemma InStep.routineEnter (inStep : t.InStep) (eip esp callEip : Eip) :
    (t.routineEnter eip esp callEip).InStep := by
  obtain ⟨stack, lastEsp, callsites, _ | _⟩ := t
  · exact inStep
  · exact congrArg (· + 1) inStep

lemma InStep.leave {top : Eip} {rest : CallStack} (inStep : t.InStep)
    (stack : t.stack = top :: rest) : ∃ t', t.leave = some t' ∧ t'.InStep ∧ t'.stack = rest := by
  obtain ⟨_, lastEsp, callsites, _ | _⟩ := t <;> cases stack
  · exact ⟨_, rfl, inStep, rfl⟩
  · cases callsites with
    | nil => cases inStep
    | cons site sites => exact ⟨_, rfl, Nat.succ.inj inStep, rfl⟩

lemma InStep.unwind {stack : CallStack} (inStep : t.InStep) (same : t.stack = stack)
    (found : eip ∈ stack) :
    ∃ t', unwind eip stack t = some t' ∧ t'.InStep ∧ t'.stack.head? = some eip := by
  induction stack generalizing t with
  | nil => cases found
  | cons top rest ih =>
    rw [RoutineTracerThread.unwind]
    split
    · next here => exact ⟨t, rfl, inStep, by rw [same, head?_cons, here]⟩
    · next other =>
      obtain ⟨t', left, inStep', popped⟩ := inStep.leave same
      rw [left]
      exact ih inStep' popped ((mem_cons.mp found).resolve_left (Ne.symm other))

lemma InStep.routineExit (inStep : t.InStep) (eip esp : Eip) :
    ∃ t', t.routineExit eip esp = some t' ∧ t'.InStep := by
  rw [RoutineTracerThread.routineExit]
  split
  · exact ⟨t, rfl, inStep⟩
  split
  · next found =>
    obtain ⟨u, unwound, inStep', top⟩ := inStep.unwind rfl found
    obtain ⟨rest, stack⟩ := head?_eq_some_iff.mp top
    obtain ⟨t', left, done, -⟩ := inStep'.leave stack
    rw [unwound, Option.bind_some, left]
    exact ⟨_, rfl, done⟩
  · exact ⟨_, rfl, inStep⟩

lemma head_routineEnter (t : RoutineTracerThread) (eip esp callEip : Eip) :
    (t.routineEnter eip esp callEip).stack.head? = some eip := by
  rw [routineEnter]
  split <;> rfl

lemma InStep.routineAssert (inStep : t.InStep) (eip esp : Eip) :
    ∃ t', t.routineAssert eip esp = some t' ∧ t'.InStep := by
  have entered := inStep.routineEnter eip esp 0
  rw [RoutineTracerThread.routineAssert]
  split
  · exact ⟨_, rfl, entered⟩
  split
  · exact ⟨t, rfl, inStep⟩
  split
  · exact ⟨_, rfl, entered⟩
  split
  · next found =>
    obtain ⟨u, unwound, inStep', top⟩ := inStep.unwind rfl found
    rw [unwound]
    exact ⟨_, if_pos top, inStep'⟩
  · exact ⟨_, if_pos (head_routineEnter t eip esp 0), entered⟩

lemma enterAll_eq (stack : CallStack) (t : RoutineTracerThread) :
    stack.foldr (fun _ => functionEnter 0) t =
      { t with callsiteStack := replicate stack.length 0 ++ t.callsiteStack } := by
  induction stack with
  | nil => rfl
  | cons top rest ih => rw [foldr_cons, ih]; rfl

lemma exitAll_eq {stack : CallStack} (same : t.callsiteStack.length = stack.length) :
    stack.foldlM (fun t _ => t.functionExit) t = some { t with callsiteStack := [] } := by
  induction stack generalizing t with
  | nil => rw [foldlM_nil, ← length_eq_zero_iff.mp same]; rfl
  | cons top rest ih =>
    obtain ⟨site, sites, callsites⟩ := exists_cons_of_length_eq_add_one same
    rw [foldlM_cons, functionExit, callsites]
    exact ih (by simpa [callsites] using same)

lemma InStep.step (inStep : t.InStep) (e : Event) : ∃ t', t.step e = some t' ∧ t'.InStep := by
  cases e with
  | routine e =>
    cases e with
    | enter eip esp callEip => exact ⟨_, rfl, inStep.routineEnter eip esp callEip⟩
    | exit eip esp => exact inStep.routineExit eip esp
    | assert eip esp => exact inStep.routineAssert eip esp
  | setPerformance enabled =>
    obtain ⟨stack, lastEsp, callsites, inROI⟩ := t
    cases inROI <;> cases enabled
    · exact ⟨_, rfl, inStep⟩
    · refine ⟨_, congrArg some (enterAll_eq stack _), ?_⟩
      have empty : callsites.length = 0 := inStep
      simp [InStep, empty]
    · exact ⟨_, exitAll_eq inStep, rfl⟩
    · exact ⟨_, rfl, inStep⟩

/-- No event pops an empty stack, and after any events there is a call site for each routine on the
stack inside the region of interest, and none outside of it. -/
theorem callsites_in_step (lastEsp : Eip) (inROI : Bool) (events : List Event) :
    ∃ t, events.foldlM step (create lastEsp inROI) = some t ∧
      t.callsiteStack.length = if t.inROI then t.stack.length else 0 := by
  have start : (create lastEsp inROI).InStep := by cases inROI <;> rfl
  generalize create lastEsp inROI = t at start
  induction events generalizing t with
  | nil => exact ⟨t, rfl, start⟩
  | cons e rest ih =>
    obtain ⟨t', stepped, inStep⟩ := start.step e
    rw [foldlM_cons, stepped]
    exact ih t' inStep

end RoutineTracerThread

end Sniper.RoutineTracer.Callsites
