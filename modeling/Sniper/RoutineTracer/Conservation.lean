import Mathlib.Algebra.Group.Pi.Lemmas
import Sniper.RoutineTracer.FunctionStats

/-!
# Conservation of routine statistics

What a thread has charged to routines is metered against the growth of its statistics. Entering,
leaving and unwinding end one interval for each that they begin, so the meter stays even; the
exits that upset it and the repeated charges at the end of the region of interest are exactly
the ones the last theorem names.
-/

namespace Sniper.RoutineTracer.RtnThread

open List Meter RtnThread Runs

variable {T : Type*} {t : RtnThread T}

def meter (t : RtnThread T) : Meter (Values T) := ⟨t.stats, t.valuesStart, t.master.total, t.spent⟩

structure Balanced (t : RtnThread T) : Prop where
  inROI : t.inROI = true
  even : t.stack ≠ [] → t.meter.Even
  paid : t.stack = [] → t.meter.Paid

lemma meter_functionBegin (t : RtnThread T) (eip : Eip) :
    (t.functionBegin eip).meter = t.meter.restart := rfl

lemma meter_functionEnd (t : RtnThread T) (eip : Eip) (is_function_start : Bool) :
    (t.functionEnd eip is_function_start).meter = t.meter.charge := by
  simp only [functionEnd, meter, charge, Master.total_updateRoutineFull, Master.total_updateRoutine]

lemma notify_eq (inROI : t.inROI = true) (callback : RtnThread T → RtnThread T) :
    t.notify callback = callback t := if_pos inROI

lemma notifyTop_nil (empty : t.stack = []) (callback : RtnThread T → Eip → RtnThread T) :
    t.notifyTop callback = t := by
  rw [notifyTop, empty]

variable {rest : CallStack} {top : Eip}

lemma notifyTop_cons (inROI : t.inROI = true)
    (stack : t.stack = top :: rest) (callback : RtnThread T → Eip → RtnThread T) :
    t.notifyTop callback = callback t top := by
  rw [notifyTop, stack]
  exact notify_eq inROI _

variable {eip : Eip}

lemma resume_balanced (inROI : t.inROI = true) : (t.resume eip).Balanced ↔ t.meter.Paid := by
  cases stack : t.stack with
  | nil =>
    rw [resume, notifyTop_nil stack]
    exact ⟨fun balanced => balanced.paid stack,
      fun paid => ⟨inROI, fun busy => absurd stack busy, fun _ => paid⟩⟩
  | cons top rest =>
    rw [resume, notifyTop_cons inROI stack]
    have busy : (t.functionChildExit top eip).stack ≠ [] := by
      rw [show (t.functionChildExit top eip).stack = t.stack from rfl, stack]
      exact cons_ne_nil _ _
    exact ⟨fun balanced => restart_even.mp (balanced.even busy), fun paid =>
      ⟨inROI, fun _ => restart_even.mpr paid, fun empty => absurd empty busy⟩⟩

lemma Balanced.suspend (balanced : t.Balanced) (eip : Eip) : (t.suspend eip).meter.Paid := by
  cases stack : t.stack with
  | nil =>
    rw [RtnThread.suspend, notifyTop_nil stack]
    exact balanced.paid stack
  | cons top rest =>
    rw [RtnThread.suspend, notifyTop_cons balanced.inROI stack, functionChildEnter,
      meter_functionEnd]
    exact charge_paid.mpr (balanced.even (by simp [stack]))

lemma suspend_inROI (t : RtnThread T) (eip : Eip) : (t.suspend eip).inROI = t.inROI := by
  rw [suspend, notifyTop]
  split
  · rfl
  · rw [notify]
    split <;> rfl

lemma Balanced.routineEnter (balanced : t.Balanced) (eip esp callEip : Eip) :
    (t.routineEnter eip esp callEip).Balanced := by
  have inROI : (t.suspend eip).inROI = true := (suspend_inROI t eip).trans balanced.inROI
  have entered : t.routineEnter eip esp callEip =
      { t.suspend eip with stack := eip :: (t.suspend eip).stack, lastEsp := esp }.functionEnter
        eip callEip := if_pos inROI
  rw [entered]
  refine ⟨inROI, fun _ => restart_even.mpr (balanced.suspend eip), fun empty => ?_⟩
  exact absurd empty (cons_ne_nil _ _)

lemma Balanced.leave (balanced : t.Balanced) (busy : t.stack ≠ []) (top : Eip) :
    (t.leave top).inROI = true ∧ (t.leave top).meter.Paid := by
  have left : t.leave top = { t.functionExit top with stack := t.stack.tail } := by
    rw [RtnThread.leave, notify_eq balanced.inROI]
  have metered : (t.leave top).meter = t.meter.charge := by
    rw [left]
    exact meter_functionEnd t top true
  refine ⟨by rw [left]; exact balanced.inROI, ?_⟩
  rw [metered]
  exact charge_paid.mpr (balanced.even busy)

lemma resume_stack (t : RtnThread T) (eip : Eip) : (t.resume eip).stack = t.stack := by
  rw [resume, notifyTop]
  split
  · rfl
  · rw [notify]
    split <;> rfl

variable {stack : CallStack}

lemma unwind_balanced (same : t.stack = stack) (found : eip ∈ stack) (balanced : t.Balanced) :
    (unwind eip stack t).Balanced ∧ (unwind eip stack t).stack.head? = some eip := by
  induction stack generalizing t with
  | nil => exact absurd found not_mem_nil
  | cons top rest ih =>
    rw [unwind]
    split
    · next top_eq => exact ⟨balanced, by rw [same, top_eq, head?_cons]⟩
    · next other =>
      have popped : ((t.leave top).resume eip).stack = rest := by
        rw [resume_stack, leave, same, tail_cons]
      refine ih popped ((List.mem_cons.mp found).resolve_left fun top_eq => other top_eq.symm) ?_
      obtain ⟨inROI, paid⟩ := balanced.leave (by simp [same]) top
      exact (resume_balanced inROI).mpr paid

lemma Balanced.unwindTo (balanced : t.Balanced) (found : eip ∈ t.stack) :
    t.unwindTo eip = (true, (t.unwindTo eip).2) ∧ (t.unwindTo eip).2.Balanced ∧
      (t.unwindTo eip).2.stack.head? = some eip := by
  rw [RtnThread.unwindTo, if_pos found]
  exact ⟨rfl, unwind_balanced rfl found balanced⟩

lemma Balanced.routineExit (balanced : t.Balanced) (esp : Eip)
    (matched : t.stack ≠ [] → eip ∈ t.stack) : (t.routineExit eip esp).Balanced := by
  rw [RtnThread.routineExit]
  split
  · exact balanced
  · next busy =>
    obtain ⟨u, reached, even, top⟩ : ∃ u : RtnThread T,
        (if t.stack.head? = some eip then (true, t) else t.unwindTo eip) = (true, u) ∧
          u.Balanced ∧ u.stack.head? = some eip := by
      split
      · next top => exact ⟨t, rfl, balanced, top⟩
      · exact ⟨_, balanced.unwindTo (matched busy)⟩
    rw [reached]
    obtain ⟨inROI, paid⟩ := even.leave (fun empty => by simp [empty] at top) eip
    exact (resume_balanced (t := { u.leave eip with lastEsp := esp }) inROI).mpr paid

lemma routineExit_missing {esp : Eip} (busy : t.stack ≠ []) (missing : eip ∉ t.stack) :
    t.routineExit eip esp = { t with lastEsp := esp }.resume eip := by
  have not_top : t.stack.head? ≠ some eip := fun top => missing (mem_of_mem_head? top)
  rw [routineExit, if_neg busy, if_neg not_top, unwindTo, if_neg missing]
  rfl

lemma resume_meter (inROI : t.inROI = true) (busy : t.stack ≠ []) (eip : Eip) :
    (t.resume eip).meter = t.meter.restart := by
  obtain ⟨top, rest, stack⟩ := exists_cons_of_ne_nil busy
  rw [resume, notifyTop_cons inROI stack]
  rfl

lemma Balanced.routineAssert (balanced : t.Balanced) (eip esp : Eip) :
    (t.routineAssert eip esp).Balanced := by
  rw [RtnThread.routineAssert]
  split
  · exact balanced.routineEnter eip esp 0
  split
  · exact balanced
  split
  · exact balanced.routineEnter eip esp 0
  by_cases found : eip ∈ t.stack
  · obtain ⟨reached, even, -⟩ := balanced.unwindTo found
    rw [reached]
    exact ⟨even.inROI, even.even, even.paid⟩
  · rw [RtnThread.unwindTo, if_neg found]
    exact balanced.routineEnter eip esp 0

lemma Balanced.advance (balanced : t.Balanced) (now : Values T) : (t.advance now).Balanced := by
  refine ⟨balanced.inROI, fun busy => ?_, fun empty => ?_⟩
  · have grown : (t.advance now).meter = t.meter.advance now := by
      simp only [RtnThread.advance, meter, Meter.advance, if_neg (show t.stack ≠ [] from busy)]
    rw [grown]
    exact Meter.advance_even.mpr (balanced.even busy)
  · have same : (t.advance now).meter = t.meter.idle now := by
      simp only [RtnThread.advance, meter, Meter.idle, if_pos (show t.stack = [] from empty)]
    rw [same]
    exact Meter.idle_paid.mpr (balanced.paid empty)

/-! ### The ends of the region of interest -/

lemma enterAll_fresh {parent : Eip} (fresh : t.meter.Fresh) :
    (enterAll parent stack t).meter = t.meter := by
  induction stack generalizing parent t with
  | nil => rfl
  | cons eip rest ih =>
    rw [enterAll]
    have kept : (if parent ≠ 0 then t.functionChildEnter parent eip else t).meter = t.meter := by
      split
      · exact (meter_functionEnd t parent false).trans fresh.charge_eq
      · rfl
    rw [functionEnter, ih (by rw [meter_functionBegin]; exact restart_fresh _),
      meter_functionBegin, kept, fresh.restart_eq]

/-- How often the interval that runs is charged when all routines are exited: a child with
address zero does not begin the interval of its parent. -/
def charges : Eip → CallStack → ℕ
  | _, [] => 0
  | child, top :: rest => if child ≠ 0 then 0 else charges top rest + 1

lemma exitAll_paid (child : Eip) (stack : CallStack) (t : RtnThread T) :
    (exitAll child stack t).meter.Paid ↔ (t.meter.chargeTimes (charges child stack)).Paid := by
  induction stack generalizing child t with
  | nil => rw [exitAll, charges, chargeTimes_zero]
  | cons top rest ih =>
    have exited : ∀ u : RtnThread T,
        ({ u.functionExit top with stack := rest } : RtnThread T).meter = u.meter.charge :=
      fun u => meter_functionEnd u top true
    rw [exitAll, charges, ih, exited]
    split
    · have fresh := restart_fresh t.meter
      rw [functionChildExit, meter_functionBegin, fresh.charge_eq, fresh.chargeTimes_eq,
        chargeTimes_zero]
      exact Iff.rfl
    · rw [chargeTimes_charge]

def Repeated : CallStack → Prop
  | top :: _ :: _ => top = 0
  | _ => False

lemma charges_eq_zero : charges top rest = 0 ↔ ¬ Repeated (top :: rest) := by
  cases rest with
  | nil => simp [charges, Repeated]
  | cons next rest => by_cases zero : top = 0 <;> simp [charges, Repeated, zero]

lemma Balanced.hookRoiEnd_paid (balanced : t.Balanced) :
    t.hookRoiEnd.meter.Paid ↔ ¬ Repeated t.stack ∨ t.meter.Fresh := by
  have ended : t.hookRoiEnd.meter.Paid ↔ (exitAll 0 t.stack t).meter.Paid := Iff.rfl
  rw [ended, exitAll_paid]
  cases stack : t.stack with
  | nil =>
    rw [charges, chargeTimes_zero]
    exact iff_of_true (balanced.paid stack) (.inl id)
  | cons top rest =>
    rw [charges, if_neg (not_not.mpr rfl), ← charges_eq_zero]
    exact (balanced.even (by simp [stack])).chargeTimes_paid

/-- Whenever the region of interest ends, the routines have been charged with what the statistics
have grown by while the call stack was not empty. -/
def Conserved (t : RtnThread T) : Prop :=
  ∀ now, let ended := (t.advance now).hookRoiEnd
    ended.master.total = ended.spent

lemma Balanced.conserved_iff [Inhabited T] (balanced : t.Balanced) :
    t.Conserved ↔ ¬ Repeated t.stack := by
  have ended : ∀ now, (t.advance now).hookRoiEnd.meter.Paid ↔
      ¬ Repeated t.stack ∨ now = t.valuesStart := fun now =>
    (balanced.advance now).hookRoiEnd_paid
  refine ⟨fun conserved => ?_, fun once now => (ended now).mpr (.inl once)⟩
  obtain once | same := (ended (t.valuesStart + 1)).mp (conserved _)
  · exact once
  · exact absurd (congrFun same default) (by simp)

/-- The thread when the region of interest begins, with any call stack. -/
def enterRoi (t : RtnThread T) : RtnThread T :=
  { t with inROI := true, spent := t.master.total }.hookRoiBegin

lemma enterAll_frame (parent : Eip) (stack : CallStack) (t : RtnThread T) :
    (enterAll parent stack t).stack = t.stack ∧ (enterAll parent stack t).inROI = t.inROI := by
  induction stack generalizing parent t with
  | nil => exact ⟨rfl, rfl⟩
  | cons eip rest ih =>
    rw [enterAll]
    obtain ⟨stack, inROI⟩ := ih eip
      ((if parent ≠ 0 then t.functionChildEnter parent eip else t).functionEnter eip 0)
    refine ⟨stack.trans ?_, inROI.trans ?_⟩ <;> split <;> rfl

@[simp] lemma enterRoi_stack (t : RtnThread T) : t.enterRoi.stack = t.stack :=
  (enterAll_frame _ _ _).1

lemma enterRoi_balanced (t : RtnThread T) : t.enterRoi.Balanced := by
  refine ⟨(enterAll_frame _ _ _).2, fun busy => ?_, fun empty => ?_⟩
  · rw [enterRoi_stack] at busy
    obtain ⟨eip, rest, bottom⟩ := exists_cons_of_ne_nil (List.reverse_ne_nil_iff.mpr busy)
    have entered : t.enterRoi.meter =
        ({ t with inROI := true, spent := t.master.total }.meter).restart := by
      rw [enterRoi, hookRoiBegin, bottom, enterAll, if_neg (not_not.mpr rfl)]
      rw [enterAll_fresh (by exact rfl)]
      rfl
    rw [entered]
    exact restart_even.mpr rfl
  · rw [enterRoi_stack] at empty
    rw [enterRoi, hookRoiBegin, empty]
    exact rfl

/-- The event drops no interval: an exit from a routine that is not on the stack comes at once. -/
def Matched (t : RtnThread T) : Values T × Event → Prop
  | (now, .exit eip _) => t.stack ≠ [] → eip ∉ t.stack → now = t.valuesStart
  | _ => True

variable {e : Event} {now : Values T}

lemma Balanced.step (balanced : t.Balanced)
    (matched : t.Matched (now, e)) : (t.step (now, e)).Balanced := by
  have moved := balanced.advance now
  cases e with
  | enter eip esp callEip => exact moved.routineEnter eip esp callEip
  | assert eip esp => exact moved.routineAssert eip esp
  | exit eip esp =>
    by_cases unmatched : t.stack ≠ [] ∧ eip ∉ t.stack
    · obtain ⟨busy, missing⟩ := unmatched
      have fresh : (t.advance now).meter.Fresh := matched busy missing
      have passed : t.step (now, .exit eip esp) =
          { t.advance now with lastEsp := esp }.resume eip := routineExit_missing busy missing
      rw [passed]
      exact (resume_balanced (t := { t.advance now with lastEsp := esp }) moved.inROI).mpr
        ((moved.even busy).paid_iff.mpr fresh)
    · push Not at unmatched
      exact moved.routineExit esp unmatched

lemma paid_of_conserved (fresh : t.meter.Fresh) (conserved : t.Conserved) : t.meter.Paid := by
  have still : (t.advance t.stats).meter = t.meter := by simp [advance, meter]
  have paid : (exitAll 0 (t.advance t.stats).stack (t.advance t.stats)).meter.Paid :=
    conserved t.stats
  rw [exitAll_paid, still, fresh.chargeTimes_eq] at paid
  exact paid

lemma Balanced.not_conserved_of_unmatched (balanced : t.Balanced)
    (unmatched : ¬ t.Matched (now, e)) : ¬ (t.step (now, e)).Conserved := by
  intro conserved
  have moved := balanced.advance now
  cases e with
  | enter eip esp callEip => exact unmatched trivial
  | assert eip esp => exact unmatched trivial
  | exit eip esp =>
    simp only [Matched, not_forall] at unmatched
    obtain ⟨busy, missing, grown⟩ := unmatched
    have passed : t.step (now, .exit eip esp) =
        { t.advance now with lastEsp := esp }.resume eip := routineExit_missing busy missing
    have metered : (t.step (now, .exit eip esp)).meter = (t.advance now).meter.restart := by
      rw [passed]
      exact resume_meter (t := { t.advance now with lastEsp := esp }) moved.inROI busy eip
    have paid := paid_of_conserved (metered ▸ restart_fresh _) conserved
    rw [metered] at paid
    exact grown ((moved.even busy).paid_iff.mp paid)

lemma Balanced.conserved_run [Inhabited T] (balanced : t.Balanced)
    (events : List (Values T × Event)) :
    Throughout RtnThread.step Conserved t events ↔
      Throughout RtnThread.step (fun t => ¬ Repeated t.stack) t events ∧
        Guarded RtnThread.step Matched t events := by
  induction events generalizing t with
  | nil => simp [Throughout, Guarded, balanced.conserved_iff]
  | cons timed events ih =>
    rw [Throughout, Throughout, Guarded, balanced.conserved_iff]
    by_cases matched : t.Matched timed
    · rw [ih (balanced.step matched)]
      tauto
    · exact iff_of_false
        (fun holds => balanced.not_conserved_of_unmatched matched holds.2.first)
        fun holds => matched holds.2.1

/-- The statistics are conserved wherever the region of interest may end just in case no stack that
`hookRoiEnd` can meet there has address zero above another routine, and every exit is matched. -/
theorem conserved_iff_accounted [Inhabited T] (t : RtnThread T) (events : List (Values T × Event)) :
    Throughout step Conserved t.enterRoi events ↔
      Throughout step (fun t => ¬ Repeated t.stack) t.enterRoi events ∧
        Guarded step Matched t.enterRoi events :=
  t.enterRoi_balanced.conserved_run events

def newThread : RtnThread Unit where
  inROI := false
  stack := []
  lastEsp := 0
  valuesStart := 0
  valuesStartFull _ := 0
  master := ⟨∅, fun _ => .new, fun _ => .new⟩
  stats := 0
  spent := 0

def ledger (events : List (Values Unit × Event)) (now : ℤ) : ℤ × ℤ :=
  let ended := ((run step newThread.enterRoi events).advance fun _ => now).hookRoiEnd
  (ended.master.total (), ended.spent ())

/-- An exit from an unknown routine loses all that ran before it, and unknown code on top of a
routine is charged twice. -/
theorem missing_exit_lost_and_zero_repeated :
    ledger [(fun _ => 0, .enter 4096 96 0), (fun _ => 5, .exit 8192 96)] 5 = (0, 5) ∧
      ledger [(fun _ => 0, .enter 4096 96 0), (fun _ => 2, .assert 0 48)] 5 = (8, 5) := by
  decide +kernel

end Sniper.RoutineTracer.RtnThread
