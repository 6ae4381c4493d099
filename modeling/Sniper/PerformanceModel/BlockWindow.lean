import Mathlib.Data.BitVec

/-!
# What overlaps with a long-latency load

While a long-latency load blocks the window, `blockWindow` goes through the uops behind it and
issues the loads that do not have to wait for it. A uop that depends on the load is marked, and so
is a uop that depends on a marked one; the marks of the uops before it are all that is looked at.

The window is a list, the uops of which have consecutive numbers. The statistics are left out.
-/

namespace Sniper.PerformanceModel.Block

open List Nat

inductive Dependent where
  | noDep
  | dataDep
  | indepMiss
  deriving DecidableEq, Repr

structure WindowEntry where
  isLoad : Bool
  isBranch : Bool
  isMemBarrier : Bool
  isSerializing : Bool
  dependencies : List ℕ
  /-- The physical address of a load. -/
  phys : BitVec 64
  execLatency : ℕ
  forceLongLatencyLoad : Bool
  /-- `getDCacheHitWhere` is `UNKNOWN`. -/
  notAccessed : Bool
  dependent : Dependent
  icacheOverlap : Bool
  bpredOverlap : Bool
  dcacheOverlap : Bool
  execTime : ℕ
  deriving DecidableEq

/-- How the loop begins with a uop: `clearDependent`, and `ICACHE_OVERLAP`. -/
def WindowEntry.touch (entry : WindowEntry) : WindowEntry :=
  { entry with dependent := .noDep, icacheOverlap := true }

/-- What the timer has besides the window. -/
structure IntervalTimer where
  lllDepMask : BitVec 64
  longLatencyCutoff : ℕ
  criticalPathHead : ℕ
  /-- The latency that the memory answers to the uop with the number, in cycles. -/
  accessMemory : ℕ → ℕ

/-- The head of the window, and the uops behind it. -/
structure Window where
  /-- The sequence number of the head. -/
  first : ℕ
  head : WindowEntry
  rest : List WindowEntry
  earlier : ∀ (i : ℕ) (inside : i < (head :: rest).length),
    ∀ dep ∈ ((head :: rest).get ⟨i, inside⟩).dependencies, dep < first + i

namespace IntervalTimer

variable (timer : IntervalTimer)

def isLongLatencyLoad (entry : WindowEntry) : Bool :=
  entry.forceLongLatencyLoad ||
    timer.longLatencyCutoff > 0 && entry.execLatency > timer.longLatencyCutoff

def issueMemOp (number : ℕ) (entry : WindowEntry) : WindowEntry :=
  if entry.notAccessed = true then { entry with
    execLatency := entry.execLatency + timer.accessMemory number
    notAccessed := false }
  else entry

/-- The test of a dependency: it is in the window, and is marked or a long-latency load itself. -/
def blocks (first : ℕ) (entries : List WindowEntry) (dep : ℕ) : Bool :=
  decide (first ≤ dep) && (entries[dep - first]?).any fun dependee =>
    dependee.dependent = .dataDep ||
      dependee.dependent = .indepMiss && timer.isLongLatencyLoad dependee

/-- The part of `blockWindow` that decides whether the uop depends on the head. -/
def mark (first : ℕ) (headAddress : BitVec 64) (entries : List WindowEntry) (entry : WindowEntry) :
    WindowEntry :=
  { entry with dependent :=
      if entry.dependencies.any (timer.blocks first entries) = true ∨
        entry.isLoad = true ∧ entry.phys &&& timer.lllDepMask = headAddress then .dataDep
      else .noDep }

/-- The loop of `blockWindow`: the uops that are done, whether a barrier is pending, and as a
history the numbers of the loads that were issued and the branches that were marked. -/
structure Progress where
  done : List WindowEntry
  memBarrierPending : Bool
  issued : List ℕ
  overlapped : List ℕ

def visit (first : ℕ) (headAddress : BitVec 64) (s : Progress) (entry : WindowEntry)
    (rest : List WindowEntry) : Progress :=
  let number := first + s.done.length
  let pending := s.memBarrierPending || entry.isMemBarrier
  let entry := timer.mark first headAddress (s.done ++ entry.touch :: rest) entry.touch
  if entry.isBranch = true ∧ entry.dependent ≠ .dataDep then
    { s with
      done := s.done ++ [{ entry with bpredOverlap := true }]
      memBarrierPending := pending
      overlapped := s.overlapped ++ [number] }
  else if entry.isLoad = true ∧ entry.dependent ≠ .dataDep ∧ pending = false ∧
      entry.dcacheOverlap = false then
    { s with
      done := s.done ++ [{ timer.issueMemOp number { entry with dcacheOverlap := true } with
        dependent := .indepMiss, execTime := timer.criticalPathHead }]
      memBarrierPending := pending
      issued := s.issued ++ [number] }
  else { s with done := s.done ++ [entry], memBarrierPending := pending }

def visitAll (first : ℕ) (headAddress : BitVec 64) : Progress → List WindowEntry → Progress
  | s, [] => s
  | s, entry :: rest =>
    if entry.isSerializing = true then { s with done := s.done ++ entry.touch :: rest }
    else visitAll first headAddress (timer.visit first headAddress s entry rest) rest

def blockWindow (w : Window) : Progress :=
  let headAddress := (if w.head.isLoad then w.head.phys else 0) &&& timer.lllDepMask
  timer.visitAll w.first headAddress
    ⟨[{ w.head with dependent := .indepMiss }], false, [], []⟩ w.rest

end IntervalTimer

namespace Window

def entries (w : Window) : List WindowEntry := w.head :: w.rest

/-- The uop with the number depends on the head, directly or through uops in the window. -/
inductive Depends (w : Window) : ℕ → Prop where
  | direct {i : ℕ} {entry : WindowEntry} (here : w.entries[i]? = some entry)
      (dep : w.first ∈ entry.dependencies) : Depends w (w.first + i)
  | further {i number : ℕ} {entry : WindowEntry} (here : w.entries[i]? = some entry)
      (depends : Depends w number) (dep : number ∈ entry.dependencies) :
      Depends w (w.first + i)

/-- The load with the number does not depend on the head and has another line. No uop that follows
the head up to the load is a barrier or serializing. -/
structure Permitted (w : Window) (timer : IntervalTimer) (number : ℕ) : Prop where
  independent : ¬ w.Depends number
  otherLine : ∀ i entry, number = w.first + i → w.entries[i]? = some entry →
    entry.phys &&& timer.lllDepMask ≠ w.head.phys &&& timer.lllDepMask
  ordered : ∀ i entry, 0 < i → w.first + i ≤ number → w.entries[i]? = some entry →
    entry.isMemBarrier = false ∧ entry.isSerializing = false

section Blocked

variable {w : Window} {timer : IntervalTimer} {s : IntervalTimer.Progress} {number : ℕ}

lemma dep_lt {i dep : ℕ} {entry : WindowEntry} (here : w.entries[i]? = some entry)
    (mem : dep ∈ entry.dependencies) : dep < w.first + i := by
  obtain ⟨inside, rfl⟩ := List.getElem?_eq_some_iff.mp here
  exact w.earlier i inside dep mem

lemma Depends.after (depends : w.Depends number) : w.first < number := by
  induction depends with
  | direct here dep => exact dep_lt here dep
  | further here _ dep ih => exact ih.trans (dep_lt here dep)

structure Sound (w : Window) (timer : IntervalTimer) (s : IntervalTimer.Progress) : Prop where
  head : ∃ head, s.done[0]? = some head ∧ head.dependent = .indepMiss ∧
    timer.isLongLatencyLoad head = true
  marked : ∀ i entry, s.done[i]? = some entry → w.Depends (w.first + i) → entry.dependent = .dataDep
  passed : ∀ i entry, 0 < i → i < s.done.length → w.entries[i]? = some entry →
    (s.memBarrierPending = false → entry.isMemBarrier = false) ∧ entry.isSerializing = false
  issued : ∀ number ∈ s.issued, w.Permitted timer number
  overlapped : ∀ number ∈ s.overlapped, ¬ w.Depends number

section

variable (sound : w.Sound timer s)

include sound

variable {entry : WindowEntry}

lemma Sound.blocks (here : w.entries[s.done.length]? = some entry)
    (depends : w.Depends (w.first + s.done.length)) (behind : List WindowEntry) :
    entry.dependencies.any (timer.blocks w.first (s.done ++ behind)) = true := by
  have found : ∃ dep ∈ entry.dependencies, dep = w.first ∨ w.Depends dep := by
    generalize target : w.first + s.done.length = number at depends
    cases depends with
    | @direct i other there dep =>
      obtain rfl : s.done.length = i := add_left_cancel target
      exact ⟨_, (Option.some.inj (here.symm.trans there)) ▸ dep, .inl rfl⟩
    | @further i number other there depends dep =>
      obtain rfl : s.done.length = i := add_left_cancel target
      exact ⟨_, (Option.some.inj (here.symm.trans there)) ▸ dep, .inr depends⟩
  obtain ⟨dep, mem, blocked⟩ := found
  refine any_eq_true.mpr ⟨dep, mem, ?_⟩
  have before := dep_lt here mem
  rcases blocked with rfl | depends
  · obtain ⟨head, there, independent, long⟩ := sound.head
    have inside := (List.getElem?_eq_some_iff.mp there).1
    simp [IntervalTimer.blocks, getElem?_append_left inside, there, independent, long]
  · have after := depends.after
    have inside : dep - w.first < s.done.length := by omega
    have place : w.first + (dep - w.first) = dep := by omega
    have marked := sound.marked _ _ (getElem?_eq_getElem inside) (by rwa [place])
    simp [IntervalTimer.blocks, getElem?_append_left inside, inside, marked, after.le]

lemma Sound.next {entry' : WindowEntry}
    (here : w.entries[s.done.length]? = some entry) (plain : entry.isSerializing = false)
    (marked : w.Depends (w.first + s.done.length) → entry'.dependent = .dataDep)
    {s' : IntervalTimer.Progress} (done : s'.done = s.done ++ [entry'])
    (pending : s'.memBarrierPending = (s.memBarrierPending || entry.isMemBarrier))
    (issued : ∀ number ∈ s'.issued, number ∈ s.issued ∨ w.Permitted timer number)
    (overlapped : ∀ number ∈ s'.overlapped, number ∈ s.overlapped ∨ ¬ w.Depends number) :
    w.Sound timer s' := by
  have length : s'.done.length = s.done.length + 1 := by simp [done]
  refine ⟨?_, fun i other there depends => ?_, fun i other behind inside there => ?_,
    fun number mem => (issued number mem).elim (sound.issued number) id,
    fun number mem => (overlapped number mem).elim (sound.overlapped number) id⟩
  · obtain ⟨head, there, facts⟩ := sound.head
    refine ⟨head, ?_, facts⟩
    rw [done, getElem?_append_left (List.getElem?_eq_some_iff.mp there).1, there]
  · have inside := (List.getElem?_eq_some_iff.mp there).1
    rw [done] at there
    rcases lt_or_ge i s.done.length with old | new
    · rw [getElem?_append_left old] at there
      exact sound.marked i other there depends
    · obtain rfl : i = s.done.length := by omega
      rw [getElem?_concat_length] at there
      exact Option.some.inj there ▸ marked depends
  · rw [pending, Bool.or_eq_false_iff]
    rcases lt_or_ge i s.done.length with old | new
    · obtain ⟨noBarrier, notSerializing⟩ := sound.passed i other behind old there
      exact ⟨fun none => noBarrier none.1, notSerializing⟩
    · obtain rfl : i = s.done.length := by omega
      cases here.symm.trans there
      exact ⟨And.right, plain⟩

lemma Sound.permitted
    (here : w.entries[s.done.length]? = some entry) (plain : entry.isSerializing = false)
    (independent : ¬ w.Depends (w.first + s.done.length))
    (otherLine : entry.phys &&& timer.lllDepMask ≠ w.head.phys &&& timer.lllDepMask)
    (noBarrier : (s.memBarrierPending || entry.isMemBarrier) = false) :
    w.Permitted timer (w.first + s.done.length) := by
  obtain ⟨noneBefore, notHere⟩ := Bool.or_eq_false_iff.mp noBarrier
  refine ⟨independent, fun i other same there => ?_, fun i other behind inside there => ?_⟩
  · obtain rfl : s.done.length = i := add_left_cancel same
    exact Option.some.inj (here.symm.trans there) ▸ otherLine
  · rcases lt_or_ge i s.done.length with old | new
    · exact (sound.passed i other behind old there).imp_left fun free => free noneBefore
    · obtain rfl : i = s.done.length := by omega
      cases here.symm.trans there
      exact ⟨notHere, plain⟩

lemma Sound.visit
    (here : w.entries[s.done.length]? = some entry) (plain : entry.isSerializing = false)
    (rest : List WindowEntry) : w.Sound timer
      (timer.visit w.first (w.head.phys &&& timer.lllDepMask) s entry rest) := by
  have marked : w.Depends (w.first + s.done.length) →
      (timer.mark w.first (w.head.phys &&& timer.lllDepMask)
        (s.done ++ entry.touch :: rest) entry.touch).dependent = .dataDep := fun depends =>
    if_pos (.inl (sound.blocks here depends _))
  have otherLine : entry.isLoad = true → (timer.mark w.first
      (w.head.phys &&& timer.lllDepMask) (s.done ++ entry.touch :: rest)
        entry.touch).dependent ≠ .dataDep →
      entry.phys &&& timer.lllDepMask ≠ w.head.phys &&& timer.lllDepMask :=
    fun isLoad free same => free (if_pos (.inr ⟨isLoad, same⟩))
  rw [IntervalTimer.visit]
  split
  · next branch =>
    refine sound.next here plain ?_ rfl rfl (fun _ => Or.inl) fun number mem => ?_
    · exact marked
    refine (mem_append.mp mem).imp_right fun last => ?_
    rw [mem_singleton.mp last]
    exact mt marked branch.2
  split
  · next load =>
    obtain ⟨isLoad, free, noBarrier, -⟩ := load
    refine sound.next here plain (fun depends => absurd (marked depends) free) rfl rfl
      (fun number mem => ?_) fun _ => Or.inl
    refine (mem_append.mp mem).imp_right fun last => ?_
    rw [mem_singleton.mp last]
    exact sound.permitted here plain (mt marked free) (otherLine isLoad free) noBarrier
  · exact sound.next here plain marked rfl rfl (fun _ => Or.inl) fun _ => Or.inl

lemma Sound.visitAll {rest : List WindowEntry}
    (whole : ∀ i, rest[i]? = w.entries[s.done.length + i]?) :
    let s' := timer.visitAll w.first (w.head.phys &&& timer.lllDepMask) s rest
    (∀ number ∈ s'.issued, w.Permitted timer number) ∧
      ∀ number ∈ s'.overlapped, ¬ w.Depends number := by
  induction rest generalizing s with
  | nil => exact ⟨sound.issued, sound.overlapped⟩
  | cons entry rest ih =>
    rw [IntervalTimer.visitAll]
    split
    · exact ⟨sound.issued, sound.overlapped⟩
    · next plain =>
      have here : w.entries[s.done.length]? = some entry := (whole 0).symm
      have one : (timer.visit w.first (w.head.phys &&& timer.lllDepMask) s entry
          rest).done.length = s.done.length + 1 := by
        rw [IntervalTimer.visit]
        split
        · simp
        split <;> simp
      refine ih (sound.visit here (eq_false_of_ne_true plain) rest) fun i => ?_
      rw [one, add_right_comm]
      exact whole (i + 1)

end

end Blocked

/-- While a long-latency load blocks the window, no load is issued and no branch marked that depends
on it, and no load is issued to its line, behind a barrier or from a serializing uop on. -/
theorem blockWindow_permitted (w : Window) (timer : IntervalTimer)
    (isLoad : w.head.isLoad = true) (long : timer.isLongLatencyLoad w.head = true) :
    (∀ number ∈ (timer.blockWindow w).issued, w.Permitted timer number) ∧
      ∀ number ∈ (timer.blockWindow w).overlapped, ¬ w.Depends number := by
  rw [IntervalTimer.blockWindow, isLoad]
  refine Sound.visitAll ⟨⟨{ w.head with dependent := .indepMiss }, rfl, rfl, long⟩,
    fun i entry there depends => ?_, fun i entry behind inside => ?_, by simp, by simp⟩ fun i => ?_
  · have inside := (List.getElem?_eq_some_iff.mp there).1
    have after := depends.after
    simp only [length_singleton] at inside
    omega
  · simp only [length_singleton] at inside
    omega
  · rw [length_singleton, add_comm]
    rfl

def plainUop : WindowEntry :=
  ⟨false, false, false, false, [], 0, 1, false, false, .noDep, false, false, false, 0⟩

def sixUops : Window where
  first := 10
  head := { plainUop with isLoad := true, phys := 64, execLatency := 200 }
  rest := [{ plainUop with isLoad := true, phys := 640, dependencies := [10] },
    { plainUop with isBranch := true, dependencies := [11] },
    { plainUop with isLoad := true, phys := 1280 }, { plainUop with isMemBarrier := true },
    { plainUop with isLoad := true, phys := 1920 }]
  earlier := by decide

theorem sixUops_one : let timer : IntervalTimer := ⟨~~~63, 30, 0, fun _ => 0⟩
    (timer.blockWindow sixUops).issued = [13] ∧ sixUops.Permitted timer 13 := by
  refine ⟨by decide, (blockWindow_permitted sixUops _ rfl (by decide)).1 13 (by decide)⟩

end Window

end Sniper.PerformanceModel.Block
