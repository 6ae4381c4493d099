import Mathlib.Algebra.Order.Ring.Nat
import Mathlib.Order.Lattice.Nat
import Sniper.Lib.Runs

/-!
# The window of a queue model

`QueueModelWindowedMG1` estimates the delay of a packet from those that came in a window of time
before it. They are kept in a multimap by their times, with their number, the sum of their service
times and the sum of the squares as they come and go. The time where the window begins is a
difference of unsigned times.
-/

namespace Sniper

open BitVec List

namespace QueueModelWindowedMG1

structure Item where
  time : BitVec 64
  serviceTime : BitVec 64
  deriving DecidableEq, Repr

/-- A call of `computeQueueDelay`, at a time of the barrier. -/
structure Packet where
  globalTime : BitVec 64
  pktTime : BitVec 64
  processingTime : BitVec 64
  deriving DecidableEq, Repr

def getPS (time : BitVec 64) : BitVec 64 := time / 1000

end QueueModelWindowedMG1

open QueueModelWindowedMG1

structure QueueModelWindowedMG1 where
  windowSize : BitVec 64
  totalRequests : BitVec 64
  totalUtilizedTime : BitVec 64
  totalQueueDelay : BitVec 64
  /-- In the order of the times, and of the arrivals for one time. -/
  window : List Item
  numArrivals : BitVec 64
  serviceTimeSum : BitVec 64
  serviceTimeSum2 : BitVec 64
  /-- All packets, in their order. -/
  arrived : List Item
  /-- The packets that were removed, in their order. -/
  removed : List Item

namespace QueueModelWindowedMG1

def new (windowSize : BitVec 64) : QueueModelWindowedMG1 where
  windowSize := windowSize
  totalRequests := 0
  totalUtilizedTime := 0
  totalQueueDelay := 0
  window := []
  numArrivals := 0
  serviceTimeSum := 0
  serviceTimeSum2 := 0
  arrived := []
  removed := []

/-- `std::multimap::insert`. -/
def insert (item : Item) : List Item → List Item
  | [] => [item]
  | first :: rest => if item.time < first.time then item :: first :: rest
    else first :: insert item rest

def addItem (pktTime serviceTime : BitVec 64) (s : QueueModelWindowedMG1) : QueueModelWindowedMG1 :=
  { s with
    window := insert ⟨pktTime, serviceTime⟩ s.window
    numArrivals := s.numArrivals + 1
    serviceTimeSum := s.serviceTimeSum + getPS serviceTime
    serviceTimeSum2 := s.serviceTimeSum2 + getPS serviceTime * getPS serviceTime
    arrived := s.arrived ++ [⟨pktTime, serviceTime⟩] }

/-- One turn of the loop of `removeItems`, for the first element. -/
def removeFirst (first : Item) (rest : List Item) (s : QueueModelWindowedMG1) :
    QueueModelWindowedMG1 :=
  { s with
    window := rest
    numArrivals := s.numArrivals - 1
    serviceTimeSum := s.serviceTimeSum - getPS first.serviceTime
    serviceTimeSum2 := s.serviceTimeSum2 - getPS first.serviceTime * getPS first.serviceTime
    removed := s.removed ++ [first] }

def removeLoop (earliestTime : BitVec 64) :
    List Item → QueueModelWindowedMG1 → QueueModelWindowedMG1
  | [], s => s
  | first :: rest, s =>
    if first.time < earliestTime then removeLoop earliestTime rest (s.removeFirst first rest) else s

def removeItems (earliestTime : BitVec 64) (s : QueueModelWindowedMG1) : QueueModelWindowedMG1 :=
  removeLoop earliestTime s.window s

def earliestTime (s : QueueModelWindowedMG1) (packet : Packet) : BitVec 64 :=
  let byGlobalTime := packet.globalTime - s.windowSize
  let byPktTime := packet.pktTime - 10 * s.windowSize
  if byGlobalTime < byPktTime then byPktTime else byGlobalTime

def advance (s : QueueModelWindowedMG1) (packet : Packet) : QueueModelWindowedMG1 :=
  s.removeItems (s.earliestTime packet)

section Delay

variable (formula : BitVec 64 → BitVec 64 → BitVec 64 → BitVec 64 → BitVec 64)

/-- The delay, with the formula for the window's size and the three totals. -/
def queueDelay (s : QueueModelWindowedMG1) : BitVec 64 :=
  if 1 < s.numArrivals then
    let tQueue := formula s.windowSize s.numArrivals s.serviceTimeSum s.serviceTimeSum2
    if s.windowSize < tQueue then s.windowSize else tQueue
  else 0

def computeQueueDelay (s : QueueModelWindowedMG1) (packet : Packet) :
    QueueModelWindowedMG1 × BitVec 64 :=
  let s := s.advance packet
  let tQueue := queueDelay formula s
  let s := s.addItem packet.pktTime packet.processingTime
  ({ s with
      totalRequests := s.totalRequests + 1
      totalUtilizedTime := s.totalUtilizedTime + packet.processingTime
      totalQueueDelay := s.totalQueueDelay + tQueue }, tQueue)

def step (s : QueueModelWindowedMG1) (packet : Packet) : QueueModelWindowedMG1 :=
  (computeQueueDelay formula s packet).1

end Delay

/-! ## The multimap -/

section Multimap

variable {item : Item} {window : List Item}

def Sorted (window : List Item) : Prop := window.Pairwise fun a b => a.time ≤ b.time

lemma insert_perm : (insert item window).Perm (item :: window) := by
  induction window with
  | nil => exact .refl _
  | cons first rest ih =>
    rw [insert]
    split
    · exact .refl _
    · exact (ih.cons first).trans (.swap item first rest)

lemma Sorted.insert (sorted : Sorted window) :
    Sorted (QueueModelWindowedMG1.insert item window) := by
  induction window with
  | nil => exact pairwise_singleton _ _
  | cons first rest ih =>
    obtain ⟨least, sortedRest⟩ := pairwise_cons.mp sorted
    rw [QueueModelWindowedMG1.insert]
    split
    · rename_i before
      have low : item.time ≤ first.time := BitVec.le_of_lt before
      refine pairwise_cons.mpr ⟨fun other mem => ?_, sorted⟩
      rcases mem_cons.mp mem with rfl | mem
      · exact low
      · exact BitVec.le_trans low (least other mem)
    · rename_i after
      refine pairwise_cons.mpr ⟨fun other mem => ?_, ih sortedRest⟩
      rcases mem_cons.mp (insert_perm.mem_iff.mp mem) with rfl | mem
      · exact BitVec.not_lt.mp after
      · exact least other mem

end Multimap

/-! ## The totals -/

section Totals

def total (measure : Item → ℕ) (window : List Item) : ℕ := (window.map measure).sum

def one (_ : Item) : ℕ := 1

def ps (item : Item) : ℕ := (getPS item.serviceTime).toNat

def ps2 (item : Item) : ℕ := ps item * ps item

variable {measure : Item → ℕ} {item : Item} {window : List Item} {counter : BitVec 64}

lemma total_one : total one window = window.length := by
  induction window with
  | nil => rfl
  | cons item window ih => exact (congrArg (1 + ·) ih).trans (Nat.add_comm ..)

lemma ofNat_ps : BitVec.ofNat 64 (ps item) = getPS item.serviceTime := by
  rw [ps, ofNat_toNat, setWidth_eq]

lemma ofNat_ps2 : BitVec.ofNat 64 (ps2 item) = getPS item.serviceTime * getPS item.serviceTime := by
  rw [ps2, ofNat_mul, ofNat_ps]

/-- The counter has the total, up to multiples of `2 ^ 64`. -/
def Counts (measure : Item → ℕ) (window : List Item) (counter : BitVec 64) : Prop :=
  counter = BitVec.ofNat 64 (total measure window)

lemma Counts.insert (counts : Counts measure window counter) (item : Item) :
    Counts measure (QueueModelWindowedMG1.insert item window)
      (counter + BitVec.ofNat 64 (measure item)) := by
  have permuted : total measure (QueueModelWindowedMG1.insert item window) =
      measure item + total measure window := (insert_perm.map measure).sum_eq
  rw [Counts, permuted, ofNat_add, counts, BitVec.add_comm]

lemma Counts.tail (counts : Counts measure (item :: window) counter) :
    Counts measure window (counter - BitVec.ofNat 64 (measure item)) := by
  have split : total measure (item :: window) = measure item + total measure window := rfl
  rw [Counts, counts, split, ofNat_add, BitVec.add_comm]
  exact BitVec.add_sub_cancel _ _

lemma Counts.toNat_eq_iff (counts : Counts measure window counter) :
    counter.toNat = total measure window ↔ total measure window < 2 ^ 64 := by
  rw [counts, toNat_ofNat]
  exact Nat.mod_eq_iff_lt (by decide)

end Totals

/-! ## What every call keeps -/

/-- The window is in order, it is what arrived and was not removed, and the totals are those of the
window up to multiples of `2 ^ 64`. -/
structure Kept (s : QueueModelWindowedMG1) : Prop where
  sorted : Sorted s.window
  perm : s.arrived.Perm (s.removed ++ s.window)
  arrivals : Counts one s.window s.numArrivals
  sum : Counts ps s.window s.serviceTimeSum
  sum2 : Counts ps2 s.window s.serviceTimeSum2

lemma Kept.new (windowSize : BitVec 64) : Kept (new windowSize) :=
  ⟨List.Pairwise.nil, .refl _, rfl, rfl, rfl⟩

variable {s : QueueModelWindowedMG1}

lemma Kept.addItem (kept : Kept s) (pktTime serviceTime : BitVec 64) :
    Kept (s.addItem pktTime serviceTime) where
  sorted := kept.sorted.insert
  perm := by
    have last : (s.window ++ [Item.mk pktTime serviceTime]).Perm
        (insert ⟨pktTime, serviceTime⟩ s.window) :=
      (perm_append_singleton _ _).trans insert_perm.symm
    have arrived := kept.perm.append_right [Item.mk pktTime serviceTime]
    rw [List.append_assoc] at arrived
    exact arrived.trans (last.append_left _)
  arrivals := kept.arrivals.insert ⟨pktTime, serviceTime⟩
  sum := by
    have inserted := kept.sum.insert ⟨pktTime, serviceTime⟩
    rwa [ofNat_ps] at inserted
  sum2 := by
    have inserted := kept.sum2.insert ⟨pktTime, serviceTime⟩
    rwa [ofNat_ps2] at inserted

variable {first : Item} {rest : List Item}

lemma Kept.removeFirst (kept : Kept s)
    (begins : s.window = first :: rest) : Kept (s.removeFirst first rest) where
  sorted := (pairwise_cons.mp (begins ▸ kept.sorted)).2
  perm := by
    rw [QueueModelWindowedMG1.removeFirst, List.append_assoc, List.singleton_append, ← begins]
    exact kept.perm
  arrivals := Counts.tail (begins ▸ kept.arrivals)
  sum := by
    have less := Counts.tail (begins ▸ kept.sum)
    rwa [ofNat_ps] at less
  sum2 := by
    have less := Counts.tail (begins ▸ kept.sum2)
    rwa [ofNat_ps2] at less

variable {earliest : BitVec 64}

lemma filter_eq_self_of_first (sorted : Sorted (first :: rest)) (late : ¬ first.time < earliest) :
    (first :: rest).filter (fun item => ¬ item.time < earliest) = first :: rest := by
  rw [filter_eq_self]
  intro item mem
  have low : first.time ≤ item.time := by
    rcases mem_cons.mp mem with rfl | mem
    · exact BitVec.le_refl _
    · exact (pairwise_cons.mp sorted).1 item mem
  refine decide_eq_true fun before => late ?_
  exact lt_def.mpr (Nat.lt_of_le_of_lt low (lt_def.mp before))

lemma Kept.removeLoop {window : List Item} (kept : Kept s) (same : s.window = window) :
    Kept (removeLoop earliest window s) ∧
      (removeLoop earliest window s).window = window.filter fun item => ¬ item.time < earliest := by
  induction window generalizing s with
  | nil => exact ⟨kept, same⟩
  | cons first rest ih =>
    rw [QueueModelWindowedMG1.removeLoop]
    split
    · rename_i before
      obtain ⟨kept', filtered⟩ := ih (kept.removeFirst same) rfl
      refine ⟨kept', filtered.trans ?_⟩
      rw [filter_cons_of_neg (by simpa using before)]
    · rename_i late
      refine ⟨kept, ?_⟩
      rw [filter_eq_self_of_first (same ▸ kept.sorted) late]
      exact same

variable {packet : Packet}

lemma Kept.advance (kept : Kept s) : Kept (s.advance packet) := (kept.removeLoop rfl).1

lemma Kept.window_advance (kept : Kept s) : (s.advance packet).window =
    s.window.filter fun item => ¬ item.time < s.earliestTime packet :=
  (kept.removeLoop rfl).2

lemma Kept.step (kept : Kept s)
    (formula : BitVec 64 → BitVec 64 → BitVec 64 → BitVec 64 → BitVec 64) :
    Kept (step formula s packet) := by
  have added := kept.advance.addItem (s := s.advance packet) packet.pktTime packet.processingTime
  exact ⟨added.sorted, added.perm, added.arrivals, added.sum, added.sum2⟩

/-! ## Where the window begins -/

def oldest (s : QueueModelWindowedMG1) (packet : Packet) : ℕ :=
  max (packet.globalTime.toNat - s.windowSize.toNat)
    (packet.pktTime.toNat - 10 * s.windowSize.toNat)

def recent (s : QueueModelWindowedMG1) (packet : Packet) : List Item :=
  s.window.filter fun item => s.oldest packet ≤ item.time.toNat

/-- The removal step leaves the packets that are not older, and the totals are theirs. -/
structure Advances (s : QueueModelWindowedMG1) (packet : Packet) : Prop where
  window : ((s.advance packet).window : Multiset Item) =
    ((s.arrived : Multiset Item) - (s.removed : Multiset Item)).filter
      fun item => s.oldest packet ≤ item.time.toNat
  arrivals : (s.advance packet).numArrivals.toNat = (s.advance packet).window.length
  sum : (s.advance packet).serviceTimeSum.toNat = total ps (s.advance packet).window
  sum2 : (s.advance packet).serviceTimeSum2.toNat = total ps2 (s.advance packet).window

structure Unharmed (s : QueueModelWindowedMG1) (packet : Packet) (time : ℕ) : Prop where
  byGlobalTime : packet.globalTime.toNat < s.windowSize.toNat →
    packet.globalTime.toNat + 2 ^ 64 ≤ time + s.windowSize.toNat
  byPktTime : packet.pktTime.toNat < 10 * s.windowSize.toNat →
    (packet.pktTime.toNat + 10 * 2 ^ 64 - 10 * s.windowSize.toNat) % 2 ^ 64 ≤ time

/-- The differences do no harm to the packets that are not older, and their totals fit in 64
bits. -/
structure Fits (s : QueueModelWindowedMG1) (packet : Packet) : Prop where
  unharmed : ∀ item ∈ s.recent packet, Unharmed s packet item.time.toNat
  arrivals : (s.recent packet).length < 2 ^ 64
  sum : total ps (s.recent packet) < 2 ^ 64
  sum2 : total ps2 (s.recent packet) < 2 ^ 64

variable {time : BitVec 64}

lemma late_iff_both : ¬ time < s.earliestTime packet ↔
    ¬ time < packet.globalTime - s.windowSize ∧ ¬ time < packet.pktTime - 10 * s.windowSize := by
  rw [earliestTime]
  simp only [lt_def]
  split <;> omega

lemma late_by_globalTime : ¬ time < packet.globalTime - s.windowSize ↔
    packet.globalTime.toNat - s.windowSize.toNat ≤ time.toNat ∧
      (packet.globalTime.toNat < s.windowSize.toNat →
        packet.globalTime.toNat + 2 ^ 64 ≤ time.toNat + s.windowSize.toNat) := by
  have small := packet.globalTime.isLt
  have small' := s.windowSize.isLt
  rw [lt_def, toNat_sub]
  omega

lemma late_by_pktTime : ¬ time < packet.pktTime - 10 * s.windowSize ↔
    packet.pktTime.toNat - 10 * s.windowSize.toNat ≤ time.toNat ∧
      (packet.pktTime.toNat < 10 * s.windowSize.toNat →
        (packet.pktTime.toNat + 10 * 2 ^ 64 - 10 * s.windowSize.toNat) % 2 ^ 64 ≤ time.toNat) := by
  have small := packet.pktTime.isLt
  have small' := s.windowSize.isLt
  have ten : (10 : BitVec 64).toNat = 10 := rfl
  rw [lt_def, toNat_sub, toNat_mul, ten]
  omega

lemma late_iff : ¬ time < s.earliestTime packet ↔
    s.oldest packet ≤ time.toNat ∧ Unharmed s packet time.toNat := by
  rw [late_iff_both, late_by_globalTime, late_by_pktTime, oldest, Nat.max_le]
  constructor
  · rintro ⟨⟨low, wraps⟩, low', wraps'⟩
    exact ⟨⟨low, low'⟩, wraps, wraps'⟩
  · rintro ⟨⟨low, low'⟩, wraps, wraps'⟩
    exact ⟨⟨low, wraps⟩, low', wraps'⟩

lemma Kept.coe_window (kept : Kept s) :
    (s.arrived : Multiset Item) - (s.removed : Multiset Item) = (s.window : Multiset Item) := by
  rw [Multiset.coe_eq_coe.mpr kept.perm, ← Multiset.coe_add, add_tsub_cancel_left]

lemma Kept.window_eq (kept : Kept s)
    (unharmed : ∀ item ∈ s.recent packet, Unharmed s packet item.time.toNat) :
    (s.advance packet).window = s.recent packet := by
  rw [kept.window_advance, recent]
  refine filter_congr fun item mem => ?_
  rw [decide_eq_decide, late_iff]
  refine ⟨And.left, fun low => ⟨low, unharmed item ?_⟩⟩
  exact mem_filter.mpr ⟨mem, decide_eq_true low⟩

lemma Kept.window_iff (kept : Kept s) : ((s.advance packet).window : Multiset Item) =
        ((s.arrived : Multiset Item) - (s.removed : Multiset Item)).filter
          (fun item => s.oldest packet ≤ item.time.toNat) ↔
      ∀ item ∈ s.recent packet, Unharmed s packet item.time.toNat := by
  rw [kept.coe_window, Multiset.filter_coe, Multiset.coe_eq_coe]
  constructor
  · intro same item mem
    have left := same.mem_iff.mpr mem
    rw [kept.window_advance] at left
    have late := of_decide_eq_true (mem_filter.mp left).2
    exact (late_iff.mp late).2
  · intro unharmed
    rw [kept.window_eq unharmed]
    rfl

lemma Kept.advances_iff (kept : Kept s) : Advances s packet ↔ Fits s packet := by
  have after : Kept (s.advance packet) := kept.advance
  constructor
  · rintro ⟨window, arrivals, sum, sum2⟩
    have unharmed := kept.window_iff.mp window
    rw [← total_one, after.arrivals.toNat_eq_iff, kept.window_eq unharmed, total_one] at arrivals
    rw [after.sum.toNat_eq_iff, kept.window_eq unharmed] at sum
    rw [after.sum2.toNat_eq_iff, kept.window_eq unharmed] at sum2
    exact ⟨unharmed, arrivals, sum, sum2⟩
  · rintro ⟨unharmed, arrivals, sum, sum2⟩
    rw [← total_one, ← kept.window_eq unharmed] at arrivals
    rw [← kept.window_eq unharmed] at sum sum2
    exact ⟨kept.window_iff.mpr unharmed, (after.arrivals.toNat_eq_iff.mpr arrivals).trans total_one,
      after.sum.toNat_eq_iff.mpr sum, after.sum2.toNat_eq_iff.mpr sum2⟩

/-- In a run every removal step leaves the right packets and the right totals when the differences
do no harm and the totals fit, at every step. -/
theorem window_advances_iff (formula : BitVec 64 → BitVec 64 → BitVec 64 → BitVec 64 → BitVec 64)
    (windowSize : BitVec 64) (packets : List Packet) :
    Runs.Guarded (step formula) Advances (new windowSize) packets ↔
      Runs.Guarded (step formula) Fits (new windowSize) packets :=
  Runs.guarded_iff (I := Kept) (fun _ _ kept => kept.step formula)
    (fun _ _ kept => kept.advances_iff) (Kept.new windowSize) packets

/-- However the differences wrap, what came in is in the window or was removed, once, and the
totals are those of the window up to multiples of `2 ^ 64`. -/
theorem packets_accounted (formula : BitVec 64 → BitVec 64 → BitVec 64 → BitVec 64 → BitVec 64)
    (windowSize : BitVec 64) (packets : List Packet) :
    Kept (Runs.run (step formula) (new windowSize) packets) :=
  Runs.run_invariant (fun _ _ kept => kept.step formula) (Kept.new windowSize) packets

def firstPacket : Packet := ⟨0, 2000000, 1000000⟩

def secondPacket : Packet := ⟨0, 3000000, 1000000⟩

/-- The first packet is 1 ns old when the second one comes, and it is removed: the differences wrap
around. -/
theorem first_packet_removed :
    let s := Runs.run (step fun _ _ _ _ => 0) (new 1000000000) [firstPacket]
    s.oldest secondPacket = 0 ∧ s.window = [⟨2000000, 1000000⟩] ∧
      (s.advance secondPacket).window = [] := by
  decide

end QueueModelWindowedMG1

end Sniper
