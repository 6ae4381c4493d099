import Mathlib.Algebra.BigOperators.Group.List.Basic
import Mathlib.Algebra.Order.Ring.Nat

/-!
# Counting basic blocks

`TraceThread::run` counts the instructions of a basic block when the next one starts. The block that
is open when the loop ends is never counted.
-/

namespace Sniper.TraceFrontend.Blocks

structure Instruction where
  addr : BitVec 64
  size : ℕ
  isBranch : Bool

/-- `counted` has the arguments of the calls of `countInstructions`, and `bodies` the number of
times the body of the loop has run. -/
structure TraceThread where
  bbvBase : BitVec 64
  bbvCount : BitVec 64
  bbvLast : BitVec 64
  bbvEnd : Bool
  counted : List (BitVec 64 × BitVec 32)
  bodies : ℕ

namespace TraceThread

def create : TraceThread := ⟨0, 0, 0, false, [], 0⟩

def startBlock (t : TraceThread) (addr : BitVec 64) : TraceThread :=
  { t with
    counted := t.counted ++ [(t.bbvBase, t.bbvCount.setWidth 32)]
    bbvBase := addr
    bbvCount := 0 }

def body (t : TraceThread) (inst : Instruction) : TraceThread :=
  let t := if t.bbvEnd ∨ t.bbvLast ≠ inst.addr then t.startBlock inst.addr else t
  { t with
    bbvCount := t.bbvCount + 1
    bbvLast := inst.addr + BitVec.ofNat 64 inst.size
    bbvEnd := inst.isBranch
    bodies := t.bodies + 1 }

/-- The loop of `run` on the instructions it reads. `stop n` is `m_stop` after the body has run `n`
times. -/
def run (stop : ℕ → Bool) : List Instruction → TraceThread → TraceThread
  | inst :: next :: rest, t =>
    if stop (t.body inst).bodies then t.body inst else run stop (next :: rest) (t.body inst)
  | _, t => t

def total (t : TraceThread) : ℕ := (t.counted.map fun call => call.2.toNat).sum

/-- The open block has at least one instruction, and it is not counted yet. -/
def Behind (t : TraceThread) : Prop :=
  ∃ opened > 0, t.bbvCount.toNat ≤ opened ∧ t.total + opened ≤ t.bodies

variable {t : TraceThread}

lemma total_startBlock (t : TraceThread) (addr : BitVec 64) :
    (t.startBlock addr).total ≤ t.total + t.bbvCount.toNat := by
  simp only [total, startBlock, List.map_append, List.sum_append, List.map_singleton,
    List.sum_singleton, BitVec.toNat_setWidth]
  exact Nat.add_le_add_left (Nat.mod_le _ _) _

lemma behind_body {opened : ℕ} (pending : t.bbvCount.toNat ≤ opened)
    (counted : t.total + opened ≤ t.bodies) (inst : Instruction) : (t.body inst).Behind := by
  unfold body
  split
  · refine ⟨1, Nat.one_pos, Nat.mod_le _ _, Nat.succ_le_succ ?_⟩
    exact (total_startBlock t inst.addr).trans ((Nat.add_le_add_left pending _).trans counted)
  · refine ⟨opened + 1, Nat.succ_pos _, ?_, Nat.succ_le_succ counted⟩
    exact (BitVec.toNat_add _ _).le.trans ((Nat.mod_le _ _).trans (Nat.succ_le_succ pending))

lemma behind_run (stop : ℕ → Bool) (trace : List Instruction) (behind : t.Behind) :
    (run stop trace t).Behind := by
  fun_induction run stop trace t with
  | case1 inst next rest t stopped =>
    obtain ⟨opened, -, pending, counted⟩ := behind
    exact behind_body pending counted inst
  | case2 inst next rest t goes ih =>
    obtain ⟨opened, -, pending, counted⟩ := behind
    exact ih (behind_body pending counted inst)
  | case3 => exact behind

/-- The counts add up to the number of times the body has run exactly when it has never run. -/
theorem total_eq_bodies_iff (stop : ℕ → Bool) (trace : List Instruction) :
    (run stop trace create).total = (run stop trace create).bodies ↔ trace.length < 2 := by
  rcases trace with _ | ⟨inst, _ | ⟨next, rest⟩⟩
  · simp [run, create, total]
  · simp [run, create, total]
  · have first : (create.body inst).Behind :=
      behind_body (t := create) (le_refl 0) (le_refl 0) inst
    have behind : (run stop (inst :: next :: rest) create).Behind := by
      rw [run]
      split
      · exact first
      · exact behind_run stop _ first
    obtain ⟨opened, positive, -, counted⟩ := behind
    simp only [List.length_cons]
    omega

/-- Two instructions that follow each other: the body has run once, for the first one. -/
theorem last_block_lost :
    let t := run (fun _ => false) [⟨0x40, 1, false⟩, ⟨0x41, 1, false⟩] create
    t.counted = [(0, 0)] ∧ t.bodies = 1 :=
  ⟨rfl, rfl⟩

end TraceThread

end Sniper.TraceFrontend.Blocks
