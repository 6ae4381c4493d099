import Sniper.Lib.Sorted
import Sniper.Lib.Runs
import Mathlib.Order.Lattice.Nat

/-!
# The contention model

`ContentionModel`: a resource with a fixed number of units, for each of which it remembers until
when the unit is busy. Which free unit is taken does not matter to requests that arrive in order:
the model is a queue that many servers work off, first come first served.

Times are `SubsecondTime`s that do not overflow. The statistics are left out.
-/

namespace Sniper

open List Ranked Runs

/-- `m_time`, the time until which each unit is busy and the tag of its last request, and
`m_t_last`. The length of `time` is `m_num_outstanding`. -/
structure ContentionModel where
  time : List (ℕ × ℕ)
  tLast : ℕ
  deriving DecidableEq, Repr

namespace ContentionModel

/-- The arguments of `getCompletionTime`. -/
structure Request where
  tStart : ℕ
  tDelay : ℕ
  tag : ℕ
  deriving DecidableEq, Repr

def new (numOutstanding : ℕ) : ContentionModel where
  time := List.replicate numOutstanding (0, 0)
  tLast := 0

variable (m : ContentionModel)

def numOutstanding : ℕ := m.time.length

def times : List ℕ := m.time.map Prod.fst

/-- `m_time[i].first`. -/
def busyUntil (i : ℕ) : ℕ := (m.time.getD i (0, 0)).1

/-- The loop of `getCompletionTime` through the given units; `unit` is the best one so far. -/
def findUnit (tStart : ℕ) : List ℕ → ℕ → ℕ
  | [], unit => unit
  | i :: is, unit =>
    if m.busyUntil i ≤ tStart then i
    else if m.busyUntil i < m.busyUntil unit then findUnit tStart is i
    else findUnit tStart is unit

def getCompletionTime (r : Request) : ℕ × ContentionModel :=
  if m.numOutstanding = 0 then (r.tStart + r.tDelay, m)
  else if r.tStart = 0 then (r.tDelay, m)
  else if r.tStart < m.tLast then (r.tStart + r.tDelay, m)
  else
    let unit := m.findUnit r.tStart (List.range m.numOutstanding) 0
    let tBegin := if r.tStart < m.busyUntil unit then m.busyUntil unit else r.tStart
    let tEnd := tBegin + r.tDelay
    (tEnd, { time := m.time.set unit (tEnd, r.tag), tLast := r.tStart })

/-- The loop of `getStartTime`, which returns at the first unit that is free. -/
def findStart (tStart : ℕ) : List ℕ → ℕ → ℕ
  | [], unit => if tStart < m.busyUntil unit then m.busyUntil unit else tStart
  | i :: is, unit =>
    if m.busyUntil i ≤ tStart then tStart
    else if m.busyUntil i < m.busyUntil unit then findStart tStart is i
    else findStart tStart is unit

def getStartTime (tStart : ℕ) : ℕ :=
  if m.numOutstanding = 0 then tStart
  else if tStart < m.tLast then tStart
  else m.findStart tStart (List.range m.numOutstanding) 0

/-- `hasFreeSlot` without a tag, whose default is `UINT64_MAX`. -/
def hasFreeSlot (tStart : ℕ) : Bool :=
  m.time.any fun unit => unit.1 ≤ tStart ∨ unit.2 = 2 ^ 64 - 1

/-! ## The search for a unit -/

lemma findStart_eq (t : ℕ) (is : List ℕ) (unit : ℕ) : m.findStart t is unit =
      if t < m.busyUntil (m.findUnit t is unit) then m.busyUntil (m.findUnit t is unit) else t := by
  induction is generalizing unit with
  | nil => rfl
  | cons i is ih =>
    rw [findStart, findUnit]
    split
    · next free => rw [if_neg (Nat.not_lt.mpr free)]
    · split
      · exact ih i
      · exact ih unit

lemma findUnit_cases (t : ℕ) (is : List ℕ) (unit : ℕ) :
    (m.findUnit t is unit ∈ is ∧ m.busyUntil (m.findUnit t is unit) ≤ t) ∨
      (m.findUnit t is unit ∈ unit :: is ∧ (∀ i ∈ is, t < m.busyUntil i) ∧
        ∀ i ∈ unit :: is, m.busyUntil (m.findUnit t is unit) ≤ m.busyUntil i) := by
  induction is generalizing unit with
  | nil => exact .inr ⟨by simp [findUnit], by simp, by simp [findUnit]⟩
  | cons i is ih =>
    rw [findUnit]
    split
    · next free => exact .inl ⟨by simp, free⟩
    · next busy =>
      have later : ∀ best, (best = i ∨ best = unit) →
          m.busyUntil best ≤ m.busyUntil i → m.busyUntil best ≤ m.busyUntil unit →
          (m.findUnit t is best ∈ i :: is ∧ m.busyUntil (m.findUnit t is best) ≤ t) ∨
            (m.findUnit t is best ∈ unit :: i :: is ∧ (∀ j ∈ i :: is, t < m.busyUntil j) ∧
              ∀ j ∈ unit :: i :: is, m.busyUntil (m.findUnit t is best) ≤ m.busyUntil j) := by
        intro best which belowI belowUnit
        rcases ih best with ⟨mem, free⟩ | ⟨mem, all, least⟩
        · exact .inl ⟨mem_cons_of_mem _ mem, free⟩
        · refine .inr ⟨?_, ?_, ?_⟩
          · rcases mem_cons.mp mem with same | mem
            · rcases which with rfl | rfl <;> simp [same]
            · simp [mem]
          · intro j hj
            rcases mem_cons.mp hj with rfl | hj
            · omega
            · exact all j hj
          · have first := least best (by simp)
            intro j hj
            rcases mem_cons.mp hj with rfl | hj
            · exact first.trans belowUnit
            · rcases mem_cons.mp hj with rfl | hj
              · exact first.trans belowI
              · exact least j (mem_cons_of_mem _ hj)
      split
      · next earlier => exact later i (.inl rfl) le_rfl earlier.le
      · next notEarlier => exact later unit (.inr rfl) (Nat.le_of_not_lt notEarlier) le_rfl

/-! ## Requests in order -/

structure Service where
  start : ℕ
  completion : ℕ
  deriving DecidableEq, Repr

/-- The request is in its unit at the instant `x`. -/
def Service.covers (v : Service) (x : ℕ) : Bool := decide (v.start ≤ x ∧ x < v.completion)

/-- A contention model with the services it has given, the latest one last. -/
structure Served where
  model : ContentionModel
  services : List Service
  deriving DecidableEq, Repr

namespace Served

/-- `getStartTime` and then `getCompletionTime` of a request. -/
def serve (s : Served) (r : Request) : Served where
  model := (s.model.getCompletionTime r).2
  services := s.services ++ [⟨s.model.getStartTime r.tStart, (s.model.getCompletionTime r).1⟩]

def start (k : ℕ) : Served := ⟨new k, []⟩

def completions (s : Served) : List ℕ := s.services.map Service.completion

/-- The earliest time at which one of the `k` units is free: the `k`-th largest completion time. -/
def earliest (s : Served) (k : ℕ) : ℕ := Ranked.kthLargest k s.completions

def InOrder (s : Served) (r : Request) : Prop := 0 < r.tStart ∧ s.model.tLast ≤ r.tStart

/-- From the last arrival on, as many units are busy as requests are unfinished, up to `k`; and no
instant has ever seen more than `k` requests in service. -/
structure Serving (k : ℕ) (s : Served) : Prop where
  units : s.model.times.length = k
  busy : ∀ x, s.model.tLast ≤ x →
    Ranked.above x s.model.times = min k (Ranked.above x s.completions)
  overlap : ∀ x, s.services.countP (fun v => v.covers x) ≤ k

variable {k : ℕ} {s : Served} {r : Request}

lemma start_serving (k : ℕ) : Serving k (start k) where
  units := by simp [start, new, times]
  busy x _ := by simp [start, new, times, above, completions]
  overlap x := by simp [start]

lemma Serving.exists_unit (serving : Serving k s) (pos : 1 ≤ k) (inOrder : s.InOrder r) :
    ∃ unit free, s.model.times[unit]? = some free ∧
      (r.tStart < free → ∀ y ∈ s.model.times, free ≤ y) ∧
      s.model.getStartTime r.tStart = max r.tStart free ∧
      s.model.getCompletionTime r = (max r.tStart free + r.tDelay,
        { time := s.model.time.set unit (max r.tStart free + r.tDelay, r.tag)
          tLast := r.tStart }) := by
  have units : s.model.numOutstanding = k := by
    rw [← serving.units, times, length_map, numOutstanding]
  have read : ∀ i < k, s.model.times[i]? = some (s.model.busyUntil i) := by
    intro i inside
    rw [← units, numOutstanding] at inside
    simp [times, busyUntil, inside]
  have begins : ∀ free, (if r.tStart < free then free else r.tStart) = max r.tStart free := by
    intro free
    split <;> omega
  have notEarly : ¬ r.tStart < s.model.tLast := Nat.not_lt.mpr inOrder.2
  have notZero : r.tStart ≠ 0 := Nat.pos_iff_ne_zero.mp inOrder.1
  have someUnit : k ≠ 0 := Nat.pos_iff_ne_zero.mp pos
  have chosen := s.model.findUnit_cases r.tStart (range k) 0
  have inside : s.model.findUnit r.tStart (range k) 0 < k := by
    rcases chosen with ⟨mem, -⟩ | ⟨mem, -⟩
    · exact mem_range.mp mem
    · rcases mem_cons.mp mem with first | mem
      · omega
      · exact mem_range.mp mem
  refine ⟨_, _, read _ inside, ?_, ?_, ?_⟩
  · intro busy y hy
    obtain ⟨i, hi⟩ := getElem?_of_mem hy
    have low : i < k := by
      rw [← serving.units]
      exact (List.getElem?_eq_some_iff.mp hi).1
    rw [read i low, Option.some.injEq] at hi
    rcases chosen with ⟨-, free⟩ | ⟨-, -, least⟩
    · exact absurd busy (Nat.not_lt.mpr free)
    · rw [← hi]
      exact least i (mem_cons_of_mem _ (mem_range.mpr low))
  · rw [getStartTime, units, if_neg someUnit, if_neg notEarly, findStart_eq, begins]
  · rw [getCompletionTime, units, if_neg someUnit, if_neg notZero, if_neg notEarly]
    dsimp only
    rw [begins]

lemma Serving.begins_eq (serving : Serving k s) (pos : 1 ≤ k) (inOrder : s.InOrder r)
    {unit free : ℕ} (taken : s.model.times[unit]? = some free)
    (least : r.tStart < free → ∀ y ∈ s.model.times, free ≤ y) :
    max r.tStart free = max r.tStart (s.earliest k) := by
  have earliest_iff : ∀ x, r.tStart ≤ x → (x < s.earliest k ↔ above x s.model.times = k) := by
    intro x late
    have busy := serving.busy x (inOrder.2.trans late)
    rw [earliest, lt_kthLargest_iff pos]
    omega
  have done : ∀ x, r.tStart ≤ x → free ≤ x → s.earliest k ≤ x := by
    intro x late free
    refine Nat.le_of_not_lt fun waits => ?_
    have few := above_lt_length (mem_of_getElem? taken) free
    rw [serving.units, (earliest_iff x late).mp waits] at few
    exact absurd few (Nat.lt_irrefl k)
  by_cases busy : r.tStart < free
  · have notBefore : free - 1 < s.earliest k := by
      refine (earliest_iff _ (by omega)).mpr (serving.units ▸ ?_)
      refine above_eq_length.mpr fun y hy => ?_
      have later := least busy y hy
      omega
    have atLast := done free busy.le le_rfl
    omega
  · have atOnce := done r.tStart le_rfl (Nat.le_of_not_lt busy)
    omega

lemma Serving.serve (serving : Serving k s) (pos : 1 ≤ k) (inOrder : s.InOrder r) :
    Serving k (s.serve r) := by
  obtain ⟨unit, free, taken, least, starts, completes⟩ := serving.exists_unit pos inOrder
  have beginsEq := serving.begins_eq pos inOrder taken least
  have after : (s.serve r).model.times = s.model.times.set unit (max r.tStart free + r.tDelay) := by
    simp [Served.serve, completes, times]
  have more : (s.serve r).completions = s.completions ++ [max r.tStart free + r.tDelay] := by
    simp [Served.serve, completes, completions]
  refine ⟨?_, fun x late => ?_, fun x => ?_⟩
  · rw [after, length_set, serving.units]
  · have late : r.tStart ≤ x := by
      rwa [Served.serve, completes] at late
    have before := serving.busy x (inOrder.2.trans late)
    rw [after, more, above_set taken, above_append, above_singleton]
    by_cases waits : x < free
    · -- all units are busy at `x`, and stay so
      have all : above x s.model.times = k := serving.units ▸
        above_eq_length.mpr fun y hy => waits.trans_le (least (late.trans_lt waits) y hy)
      have busy : x < max r.tStart free + r.tDelay := by omega
      rw [if_pos waits, if_pos busy]
      omega
    · have few := above_lt_length (mem_of_getElem? taken) (Nat.le_of_not_lt waits)
      rw [serving.units] at few
      rw [if_neg waits]
      split <;> omega
  · have split : (s.serve r).services.countP (fun v => v.covers x) =
        s.services.countP (fun v => v.covers x) +
          if max r.tStart free ≤ x ∧ x < max r.tStart free + r.tDelay then 1 else 0 := by
      simp only [Served.serve, completes, starts, countP_append, countP_singleton,
        Service.covers, decide_eq_true_eq]
    rw [split]
    have before := serving.overlap x
    split
    · next during =>
      -- what is in service at `x` is not finished at `x`, and that is less than `k` requests
      have unfinished : s.services.countP (fun v => v.covers x) ≤ above x s.completions := by
        rw [above, completions, countP_map]
        refine countP_mono_left fun v _ covered => ?_
        simp only [Service.covers, decide_eq_true_eq] at covered
        simpa using covered.2
      have few : ¬ x < s.earliest k := by omega
      rw [earliest, lt_kthLargest_iff pos] at few
      omega
    · omega

lemma guarded_inOrder {rs : List Request} (positive : ∀ r ∈ rs, 0 < r.tStart)
    (ordered : rs.Pairwise fun r r' => r.tStart ≤ r'.tStart)
    (late : ∀ r ∈ rs, s.model.tLast ≤ r.tStart) : Guarded serve InOrder s rs := by
  induction rs generalizing s with
  | nil => exact trivial
  | cons r rs ih =>
    obtain ⟨first, ordered⟩ := pairwise_cons.mp ordered
    refine ⟨⟨positive r (by simp), late r (by simp)⟩,
      ih (fun r' hr' => positive r' (mem_cons_of_mem _ hr')) ordered fun r' hr' => ?_⟩
    have last : (s.serve r).model.tLast = s.model.tLast ∨ (s.serve r).model.tLast = r.tStart := by
      unfold Served.serve getCompletionTime
      split
      · exact .inl rfl
      · split
        · exact .inl rfl
        · split
          · exact .inl rfl
          · exact .inr rfl
    rcases last with last | last
    · rw [last]
      exact late r' (mem_cons_of_mem _ hr')
    · rw [last]
      exact first r' hr'

end Served

open Served in
/-- With `k` units the contention model is a queue with `k` servers, first come first served: a
request begins at the `k`-th largest earlier completion time, or on its arrival if that is later,
`getStartTime` says when, and at most `k` requests are in service at any instant. -/
theorem first_come_first_served (k : ℕ) (pos : 1 ≤ k) (rs : List Request)
    (positive : ∀ r ∈ rs, 0 < r.tStart) (ordered : rs.Pairwise fun r r' => r.tStart ≤ r'.tStart) :
    (∀ earlier r later, rs = earlier ++ r :: later → let s := run serve (start k) earlier
      (s.model.getCompletionTime r).1 = max r.tStart (s.earliest k) + r.tDelay ∧
      s.model.getStartTime r.tStart = max r.tStart (s.earliest k)) ∧
    ∀ x, (run serve (start k) rs).services.countP (fun v => v.covers x) ≤ k := by
  have inOrder : Guarded serve InOrder (start k) rs :=
    guarded_inOrder positive ordered fun _ _ => Nat.zero_le _
  have keep : ∀ s r, Serving k s → s.InOrder r → Serving k (s.serve r) :=
    fun s r serving inOrder => serving.serve pos inOrder
  constructor
  · rintro earlier r later rfl
    obtain ⟨first, now, -⟩ := guarded_append.mp inOrder
    have serving := run_guarded keep (start_serving k) first
    obtain ⟨unit, free, taken, least, starts, completes⟩ := serving.exists_unit pos now
    have begins := serving.begins_eq pos now taken least
    exact ⟨by rw [completes, begins], by rw [starts, begins]⟩
  · exact (run_guarded keep (start_serving k) inOrder).overlap

/-- Four requests to two units: the third one waits for the first unit to be free. -/
theorem two_units_first_come_first_served :
    (let s := run Served.serve (Served.start 2) [⟨1, 10, 0⟩, ⟨2, 3, 0⟩];
      (s.model.getCompletionTime ⟨3, 4, 0⟩).1 = max 3 (s.earliest 2) + 4 ∧
      s.model.getStartTime 3 = max 3 (s.earliest 2)) ∧
    ∀ x, (run Served.serve (Served.start 2) [⟨1, 10, 0⟩, ⟨2, 3, 0⟩, ⟨3, 4, 0⟩,
      ⟨3, 0, 0⟩]).services.countP (fun v => v.covers x) ≤ 2 := by
  have served := first_come_first_served 2 (by decide)
    [⟨1, 10, 0⟩, ⟨2, 3, 0⟩, ⟨3, 4, 0⟩, ⟨3, 0, 0⟩] (by decide) (by decide)
  exact ⟨served.1 [⟨1, 10, 0⟩, ⟨2, 3, 0⟩] ⟨3, 4, 0⟩ [⟨3, 0, 0⟩] rfl, served.2⟩

end ContentionModel

end Sniper
