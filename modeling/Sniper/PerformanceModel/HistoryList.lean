import Sniper.Lib.Sorted
import Sniper.Lib.Runs
import Sniper.Misc.SubsecondTime

/-!
# The history list of a queue

`QueueModelHistoryList`: the times at which a queue is still free, as a list of intervals. A request
takes the first interval that it fits in or that begins after it; what remains of that interval goes
back into the list if it is long enough. A request that comes before the interval it takes is not
asked to fit, and then the length of what remains is computed below zero.

An assertion that fails ends the program, which is `none`.
-/

namespace Sniper

open List SubsecondTime Option

structure QueueModelHistoryList where
  minProcessingTime : ℕ
  maxFreeIntervalListSize : ℕ
  freeIntervalList : List (Extent ℕ)
  deriving DecidableEq, Repr

namespace QueueModelHistoryList

/-- The arguments of `computeUsingHistoryList`. -/
structure Packet where
  pktTime : ℕ
  processingTime : ℕ
  deriving DecidableEq, Repr

/-- `max_simulation_time`. -/
def maxSimulationTime : ℕ := 2 ^ 63

def new (minProcessingTime maxListSize : ℕ) : QueueModelHistoryList where
  minProcessingTime := minProcessingTime
  maxFreeIntervalListSize := maxListSize
  freeIntervalList := [⟨0, maxSimulationTime⟩]

/-- What the loop does at one interval: pass it, or take it with a delay and leave some parts. -/
def take (minTime : ℕ) (p : Packet) (i : Extent ℕ) : Option (ℕ × List (Extent ℕ)) :=
  if i.first ≤ p.pktTime ∧ add p.pktTime p.processingTime ≤ i.second then
    some (0, (if minTime ≤ sub p.pktTime i.first then [⟨i.first, p.pktTime⟩] else []) ++
      if minTime ≤ sub i.second (add p.pktTime p.processingTime) then
        [⟨add p.pktTime p.processingTime, i.second⟩] else [])
  else if p.pktTime < i.first then
    -- the fit is not demanded here
    some (sub i.first p.pktTime, if minTime ≤ sub i.second (add i.first p.processingTime) then
        [⟨add i.first p.processingTime, i.second⟩] else [])
  else none

def place (minTime : ℕ) (p : Packet) : List (Extent ℕ) → ℕ × List (Extent ℕ)
  | [] => (maxTime, [])
  | i :: is =>
    match take minTime p i with
    | some (delay, parts) => (delay, parts ++ is)
    | none => ((place minTime p is).1, i :: (place minTime p is).2)

def dropOldest (size : ℕ) (is : List (Extent ℕ)) : List (Extent ℕ) :=
  if size < is.length then is.tail else is

def computeUsingHistoryList (q : QueueModelHistoryList) (p : Packet) :
    Option (ℕ × QueueModelHistoryList) :=
  if q.maxFreeIntervalListSize < q.freeIntervalList.length then none
  else
    let placed := place q.minProcessingTime p q.freeIntervalList
    if placed.1 = maxTime then none
    else some (placed.1,
      { q with freeIntervalList := dropOldest q.maxFreeIntervalListSize placed.2 })

def call (s : Option QueueModelHistoryList) (p : Packet) : Option QueueModelHistoryList :=
  s.bind fun q => (q.computeUsingHistoryList p).map Prod.snd

/-- The free intervals are proper and follow one another, and the last one ends at the maximum
simulation time. -/
def WellFormed (q : QueueModelHistoryList) : Prop :=
  Extent.Ordered q.freeIntervalList ∧
    q.freeIntervalList.getLast?.map Extent.second = some maxSimulationTime

instance (q : QueueModelHistoryList) : Decidable q.WellFormed :=
  inferInstanceAs (Decidable (Extent.Ordered _ ∧ _ = _))

def Packet.takes (p : Packet) (i : Extent ℕ) : Bool :=
  decide (p.pktTime < i.first ∨ add p.pktTime p.processingTime ≤ i.second)

def taken (q : QueueModelHistoryList) (p : Packet) : Option (Extent ℕ) :=
  q.freeIntervalList.find? p.takes

def Packet.done (p : Packet) (i : Extent ℕ) : ℕ := max p.pktTime i.first + p.processingTime

/-- The packet fits into the interval it takes, or else the wrapped difference is too small for a
remainder; and it leaves enough of the last interval. -/
def Fits (q : QueueModelHistoryList) (p : Packet) : Prop :=
  ∀ i ∈ q.taken p, (p.done i ≤ i.second ∨ i.second + 2 ^ 64 - p.done i < q.minProcessingTime) ∧
    (i.second = maxSimulationTime → q.minProcessingTime ≤ i.second - p.done i)

instance (q : QueueModelHistoryList) (p : Packet) : Decidable (q.Fits p) :=
  inferInstanceAs (Decidable (∀ i ∈ q.taken p, _ ∧ _))

/-! ## One call -/

variable {minTime : ℕ} {p : Packet} {i : Extent ℕ}

lemma take_eq_some (minTime : ℕ) (low : i.first ≤ maxSimulationTime) (early : p.done i < 2 ^ 64)
    (takes : p.takes i = true) :
    ∃ delay ≤ maxSimulationTime, ∃ head : List (Extent ℕ),
      (head = [] ∨ head = [⟨i.first, p.pktTime⟩] ∧ i.first ≤ p.pktTime ∧ p.done i ≤ i.second) ∧
      take minTime p i = some (delay, head ++
        if minTime ≤ sub i.second (p.done i) then [⟨p.done i, i.second⟩] else []) := by
  unfold Packet.done at early ⊢
  unfold maxSimulationTime at low
  have sum : add p.pktTime p.processingTime = p.pktTime + p.processingTime := add_eq (by omega)
  simp only [Packet.takes, sum, decide_eq_true_eq] at takes
  unfold take
  rw [sum]
  by_cases before : p.pktTime < i.first
  · rw [if_neg (by omega), if_pos before, add_eq (by omega),
      show max p.pktTime i.first = i.first by omega]
    refine ⟨sub i.first p.pktTime, ?_, [], .inl rfl, rfl⟩
    rw [sub_eq (by omega) before.le]
    unfold maxSimulationTime
    omega
  · rw [if_pos (by omega), show max p.pktTime i.first = p.pktTime by omega]
    refine ⟨0, Nat.zero_le _, _, ?_, rfl⟩
    split
    · exact .inr ⟨rfl, by omega, by omega⟩
    · exact .inl rfl

lemma take_eq_none (passes : ¬ p.takes i = true) : take minTime p i = none := by
  simp only [Packet.takes, decide_eq_true_eq] at passes
  unfold take
  rw [if_neg (by omega), if_neg (by omega)]

lemma place_eq {is parts : List (Extent ℕ)} {delay : ℕ} (found : is.find? p.takes = some i)
    (took : take minTime p i = some (delay, parts)) :
    ∃ before after, is = before ++ i :: after ∧
      place minTime p is = (delay, before ++ (parts ++ after)) := by
  induction is with
  | nil => cases found
  | cons j is ih =>
    by_cases here : p.takes j = true
    · obtain rfl : j = i := by simpa [here] using found
      exact ⟨[], is, rfl, by simp [place, took]⟩
    · rw [find?_cons_of_neg here] at found
      obtain ⟨before, after, rfl, placed⟩ := ih found
      exact ⟨j :: before, after, rfl, by simp [place, take_eq_none here, placed]⟩

lemma dropOldest_sublist (size : ℕ) (is : List (Extent ℕ)) : (dropOldest size is).Sublist is := by
  unfold dropOldest
  split
  · exact tail_sublist is
  · exact List.Sublist.refl is

lemma dropOldest_getLast? {size : ℕ} (room : 1 ≤ size) (is : List (Extent ℕ)) :
    (dropOldest size is).getLast? = is.getLast? := by
  unfold dropOldest
  split
  · next long => rw [getLast?_tail, if_neg (by omega)]
  · rfl

lemma dropOldest_length {size : ℕ} {is : List (Extent ℕ)} (long : is.length ≤ size + 1) :
    (dropOldest size is).length ≤ size := by
  unfold dropOldest
  split
  · rw [length_tail]
    omega
  · omega

def total (ps : List Packet) : ℕ := (ps.map Packet.processingTime).sum

lemma total_cons (p : Packet) (ps : List Packet) : total (p :: ps) = p.processingTime + total ps :=
  sum_cons

/-- A well-formed list that fits its bound, with packets to come that all end before the maximum
simulation time, even if each of them waits for the others. -/
structure Ready (q : QueueModelHistoryList) (ps : List Packet) : Prop where
  ordered : Extent.Ordered q.freeIntervalList
  room : 1 ≤ q.maxFreeIntervalListSize
  size : q.freeIntervalList.length ≤ q.maxFreeIntervalListSize
  last : ∃ i, q.freeIntervalList.getLast? = some i ∧ i.second = maxSimulationTime ∧
    i.first + total ps < maxSimulationTime
  packets : ∀ p ∈ ps, p.pktTime + total ps < maxSimulationTime

variable {q : QueueModelHistoryList} {ps : List Packet}

lemma Ready.wellFormed (ready : Ready q ps) : q.WellFormed := by
  obtain ⟨i, last, ends, -⟩ := ready.last
  exact ⟨ready.ordered, by rw [last, map_some, ends]⟩

lemma Ready.bounded (ready : Ready q ps) {before after : List (Extent ℕ)}
    (list : q.freeIntervalList = before ++ i :: after) :
    i.first + total ps < maxSimulationTime ∧
      (after ≠ [] ∧ i.second < maxSimulationTime ∨ after = [] ∧ i.second = maxSimulationTime) := by
  obtain ⟨last, isLast, ends, early⟩ := ready.last
  obtain ⟨proper, apart⟩ := ready.ordered
  rw [list] at isLast proper apart
  rw [getLast?_append, getLast?_cons] at isLast
  cases rest : after.getLast? with
  | none =>
    obtain rfl : i = last := by simpa [rest] using isLast
    exact ⟨early, .inr ⟨getLast?_eq_none_iff.mp rest, ends⟩⟩
  | some j =>
    obtain rfl : j = last := by simpa [rest] using isLast
    have mem : j ∈ after := mem_of_getLast? rest
    have follows : i.second ≤ j.first :=
      (pairwise_cons.mp (pairwise_append.mp apart).2.1).1 j mem
    have self : i.first ≤ i.second := proper i (by simp)
    exact ⟨by omega, .inl ⟨ne_nil_of_mem mem, by omega⟩⟩

lemma Ready.call_eq (ready : Ready q (p :: ps)) :
    ∃ (before after head tail : List (Extent ℕ)) (i : Extent ℕ),
      q.freeIntervalList = before ++ i :: after ∧ q.taken p = some i ∧
      (head = [] ∨ head = [⟨i.first, p.pktTime⟩] ∧ i.first ≤ p.pktTime ∧ p.done i ≤ i.second) ∧
      tail = (if q.minProcessingTime ≤ sub i.second (p.done i) then
        [⟨p.done i, i.second⟩] else []) ∧
      call (some q) p = some { q with
        freeIntervalList :=
          dropOldest q.maxFreeIntervalListSize (before ++ (head ++ tail ++ after)) } := by
  have packet := ready.packets p (by simp)
  have sum := total_cons p ps
  obtain ⟨last, isLast, ends, early⟩ := ready.last
  unfold maxSimulationTime at packet ends early
  have found : (q.taken p).isSome := by
    refine find?_isSome.mpr ⟨last, mem_of_getLast? isLast, ?_⟩
    rw [Packet.takes, add_eq (by omega), decide_eq_true_eq]
    omega
  obtain ⟨i, taken⟩ := isSome_iff_exists.mp found
  obtain ⟨earlier, later, list⟩ := append_of_mem (mem_of_find?_eq_some taken)
  have bound := (ready.bounded list).1
  have soon : p.done i < 2 ^ 64 := by
    unfold Packet.done
    unfold maxSimulationTime at bound
    omega
  obtain ⟨delay, short, head, cut, took⟩ :=
    take_eq_some q.minProcessingTime (by omega) soon (find?_some taken)
  obtain ⟨before, after, list, placed⟩ := place_eq taken took
  refine ⟨before, after, head, _, i, list, taken, cut, rfl, ?_⟩
  have notLong : ¬ q.maxFreeIntervalListSize < q.freeIntervalList.length :=
    Nat.not_lt.mpr ready.size
  have noError : delay ≠ maxTime := by
    unfold maxSimulationTime at short
    unfold maxTime
    omega
  simp [call, computeUsingHistoryList, notLong, placed, noError]

/-- A packet that fits finds an interval and leaves enough room for those after it. -/
lemma Ready.keep (ready : Ready q (p :: ps)) (fits : q.Fits p) :
    ∃ q', call (some q) p = some q' ∧ Ready q' ps := by
  obtain ⟨before, after, head, tail, i, list, taken, cut, left, called⟩ := ready.call_eq
  obtain ⟨fit, remains⟩ := fits i taken
  obtain ⟨early, which⟩ := ready.bounded list
  have packet := ready.packets p (by simp)
  have sum := total_cons p ps
  have proper : i.first ≤ i.second := ready.ordered.1 i (by simp [list])
  have size := ready.size
  rw [sum] at early packet
  unfold maxSimulationTime at early packet which remains
  have done : p.done i + total ps < 2 ^ 63 ∧ p.pktTime ≤ p.done i ∧ i.first ≤ p.done i := by
    unfold Packet.done
    omega
  have inOrder : Extent.Ordered (head ++ tail) ∧ (head ++ tail).length ≤ 2 ∧
      ∀ part ∈ head ++ tail, part.Within i := by
    -- a remainder is written only when the packet is done before the interval ends
    have tailCases : tail = [] ∨ tail = [⟨p.done i, i.second⟩] ∧ p.done i ≤ i.second := by
      rw [left]
      split
      · next enough =>
        exact .inr ⟨rfl, fit.resolve_right fun short => absurd (enough.trans sub_le)
          (Nat.not_le.mpr short)⟩
      · exact .inl rfl
    rcases cut with rfl | ⟨rfl, started, ends⟩ <;> rcases tailCases with rfl | ⟨rfl, ends'⟩ <;>
      simp [Extent.Ordered, Extent.Proper, Extent.Within] <;> omega
  have longer : (before ++ (head ++ tail ++ after)).length ≤ q.maxFreeIntervalListSize + 1 := by
    have parts := inOrder.2.1
    rw [list] at size
    simp only [length_append, length_cons] at size parts ⊢
    omega
  have ordered := ready.ordered
  rw [list] at ordered
  refine ⟨_, called, ⟨(ordered.replace inOrder.1 inOrder.2.2).sublist (dropOldest_sublist _ _),
    ready.room, dropOldest_length longer, ?_, fun p' hp' => ?_⟩⟩
  · rw [dropOldest_getLast? ready.room]
    rcases which with ⟨more, -⟩ | ⟨rfl, isEnd⟩
    · obtain ⟨last, isLast, ends, soon⟩ := ready.last
      refine ⟨last, ?_, ends, by omega⟩
      rw [← isLast, list, getLast?_append_of_ne_nil _ (by simp [more]),
        getLast?_append_of_ne_nil _ more, getLast?_append_of_ne_nil _ (by simp),
        getLast?_cons_of_ne_nil more]
    · have enough : q.minProcessingTime ≤ sub i.second (p.done i) := by
        rw [sub_eq (by omega) (by omega)]
        exact remains isEnd
      rw [if_pos enough] at left
      refine ⟨⟨p.done i, i.second⟩, by simp [left], isEnd, done.1⟩
  · have later := ready.packets p' (mem_cons_of_mem _ hp')
    omega

lemma Ready.breaks (ready : Ready q (p :: ps)) (unfit : ¬ q.Fits p) :
    ∃ q', call (some q) p = some q' ∧ ¬ q'.WellFormed := by
  obtain ⟨before, after, head, tail, i, list, taken, cut, left, called⟩ := ready.call_eq
  refine ⟨_, called, ?_⟩
  obtain ⟨early, which⟩ := ready.bounded list
  have packet := ready.packets p (by simp)
  have sum := total_cons p ps
  rw [sum] at early packet
  have failed : (i.second < p.done i ∧ q.minProcessingTime ≤ i.second + 2 ^ 64 - p.done i) ∨
      (i.second = maxSimulationTime ∧ i.second - p.done i < q.minProcessingTime) := by
    by_contra none
    refine unfit fun j hj => ?_
    obtain rfl : i = j := by simpa [taken] using hj
    omega
  have done : p.done i < maxSimulationTime := by
    unfold Packet.done
    omega
  rintro ⟨ordered, isLast⟩
  rcases failed with ⟨late, wraps⟩ | ⟨isEnd, short⟩
  · -- the remainder begins after it ends
    have noHead : head = [] := by
      rcases cut with rfl | ⟨rfl, -, ends⟩
      · rfl
      · omega
    unfold maxSimulationTime at done
    rw [← sub_wraps (by omega) late] at wraps
    rw [if_pos wraps] at left
    have same : (before ++ (head ++ tail ++ after)).length = q.freeIntervalList.length := by
      rw [noHead, left, list]
      simp
    have size := ready.size
    rw [dropOldest, if_neg (by omega)] at ordered
    have improper : p.done i ≤ i.second := ordered.1 ⟨p.done i, i.second⟩ (by simp [left])
    omega
  · -- nothing that is left reaches the end
    rcases which with ⟨-, notEnd⟩ | ⟨rfl, -⟩
    · omega
    · have noTail : tail = [] := by
        rw [left, if_neg]
        unfold maxSimulationTime at isEnd done
        rw [sub_eq (by omega) (by omega)]
        omega
      obtain ⟨j, hj, ends⟩ := map_eq_some_iff.mp isLast
      have mem := (dropOldest_sublist _ _).subset (mem_of_getLast? hj)
      have apart := ready.ordered.2
      rw [list] at apart
      simp only [noTail, append_nil, mem_append] at mem
      rcases mem with mem | mem
      · have follows := (pairwise_append.mp apart).2.2 j mem i (by simp)
        omega
      · rcases cut with rfl | ⟨rfl, -, -⟩
        · cases mem
        · obtain rfl := mem_singleton.mp mem
          simp only at ends
          omega

lemma new_ready {maxListSize : ℕ} (room : 1 ≤ maxListSize) (minTime : ℕ)
    (bounded : ∀ p ∈ ps, p.pktTime + total ps < maxSimulationTime) (short : total ps < 2 ^ 63) :
    Ready (new minTime maxListSize) ps where
  ordered := by simp [new, Extent.Ordered, Extent.Proper]
  room := room
  size := room
  last := ⟨⟨0, maxSimulationTime⟩, rfl, rfl, by simpa [maxSimulationTime] using short⟩
  packets := bounded

/-- The free intervals stay well formed as long as every packet fits into the interval it takes and
leaves enough of the last one, and not longer. -/
theorem free_intervals_wellFormed_iff (maxListSize : ℕ) (room : 1 ≤ maxListSize) (minTime : ℕ)
    (ps : List Packet) (bounded : ∀ p ∈ ps, p.pktTime + total ps < maxSimulationTime) :
    Runs.Throughout call (fun s => ∃ q, s = some q ∧ q.WellFormed)
        (some (new minTime maxListSize)) ps ↔
      Runs.Guarded call (fun s p => ∀ q ∈ s, q.Fits p) (some (new minTime maxListSize)) ps := by
  have short : total ps < 2 ^ 63 := by
    cases ps with
    | nil => simp [total]
    | cons p ps =>
      have first := bounded p (by simp)
      unfold maxSimulationTime at first
      omega
  refine Runs.throughout_iff_guarded_ahead (I := fun s ps => ∃ q, s = some q ∧ Ready q ps)
    ?_ ?_ ?_ ⟨_, rfl, new_ready room minTime bounded short⟩
  · rintro _ p ps ⟨q, rfl, ready⟩ fits
    exact ready.keep (fits q rfl)
  · rintro _ ps ⟨q, rfl, ready⟩
    exact ⟨q, rfl, ready.wellFormed⟩
  · rintro _ p ps ⟨q, rfl, ready⟩ unfit ⟨q', called, wellFormed⟩
    obtain ⟨q'', called', broken⟩ := ready.breaks fun fits => unfit fun q' hq' => by
      obtain rfl := mem_some_iff.mp hq'
      exact fits
    rw [called, some.injEq] at called'
    exact broken (called' ▸ wellFormed)

/-- Two packets that leave a gap between them. -/
theorem free_intervals_wellFormed_gap :
    Runs.Throughout call (fun s => ∃ q, s = some q ∧ q.WellFormed) (some (new 1 100))
      [⟨10, 5⟩, ⟨20, 5⟩] :=
  (free_intervals_wellFormed_iff 100 (by decide) 1 [⟨10, 5⟩, ⟨20, 5⟩] (by decide)).mpr (by decide)

/-- A third packet comes before the gap and is longer than it: the interval that is left begins
after it ends. -/
theorem long_packet_breaks_intervals : let ps : List Packet := [⟨10, 5⟩, ⟨20, 5⟩, ⟨12, 8⟩]
    (∀ p ∈ ps, p.pktTime + total ps < maxSimulationTime) ∧
    Runs.run call (some (new 1 100)) ps = some ⟨1, 100, [⟨0, 10⟩, ⟨23, 20⟩, ⟨25, 2 ^ 63⟩]⟩ ∧
    ¬ Runs.Throughout call (fun s => ∃ q, s = some q ∧ q.WellFormed) (some (new 1 100)) ps := by
  refine ⟨by decide, by decide, ?_⟩
  rintro ⟨-, -, -, q, last, wellFormed⟩
  have list : q = ⟨1, 100, [⟨0, 10⟩, ⟨23, 20⟩, ⟨25, 2 ^ 63⟩]⟩ :=
    some.inj (last.symm.trans (by decide))
  rw [list] at wellFormed
  revert wellFormed
  decide

end QueueModelHistoryList

end Sniper
