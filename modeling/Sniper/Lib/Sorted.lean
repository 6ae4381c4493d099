import Mathlib.Data.List.Basic
import Mathlib.Data.List.Induction
import Mathlib.Data.List.Sort
import Mathlib.Data.List.TakeWhile
import Mathlib.Order.Basic
import Mathlib.Order.Lattice

/-!
# Lists in order

Lists that a program keeps or puts in order: maps by their keys, intervals by their ends, logs by
their stamps, and numbers by their size.
-/

/-!
## Maps with ordered keys

A map is a list of entries whose keys increase. It is known by the entries it holds: setting a
key replaces at most one entry, and erasing a key removes at most one. `upperBound` finds the
first entry beyond a key.
-/

structure OrderedMap (K V : Type*) [LinearOrder K] where
  entries : List (K × V)
  sorted : entries.Pairwise fun a b => a.1 < b.1

namespace OrderedMap

open List

open List

variable {K V : Type*} [LinearOrder K]

def empty : OrderedMap K V := ⟨[], .nil⟩

variable (m : OrderedMap K V)

def Maps (k : K) (v : V) : Prop := (k, v) ∈ m.entries

def erase (k : K) : OrderedMap K V where
  entries := m.entries.filter fun entry => entry.1 ≠ k
  sorted := m.sorted.filter _

def set (k : K) (v : V) : OrderedMap K V where
  entries := m.entries.filter (fun entry => entry.1 < k) ++
    (k, v) :: m.entries.filter fun entry => k < entry.1
  sorted := by
    refine pairwise_append.mpr ⟨m.sorted.filter _, ?_, ?_⟩
    · refine pairwise_cons.mpr ⟨fun entry after => ?_, m.sorted.filter _⟩
      simpa using (mem_filter.mp after).2
    · intro first before second after
      have below : first.1 < k := by simpa using (mem_filter.mp before).2
      obtain rfl | above := mem_cons.mp after
      · exact below
      · exact below.trans (by simpa using (mem_filter.mp above).2)

def upperBound (k : K) : Option (K × V) :=
  m.entries.find? fun entry => k < entry.1

variable {m : OrderedMap K V} {k k' : K} {v v' : V}

@[simp] lemma not_maps_empty : ¬ (empty : OrderedMap K V).Maps k v := not_mem_nil

@[simp] lemma maps_erase : (m.erase k).Maps k' v' ↔ k' ≠ k ∧ m.Maps k' v' := by
  simp [Maps, erase, and_comm]

@[simp] lemma maps_set : (m.set k v).Maps k' v' ↔ k' = k ∧ v' = v ∨ k' ≠ k ∧ m.Maps k' v' := by
  simp only [Maps, set, mem_append, mem_filter, mem_cons, decide_eq_true_eq, Prod.mk.injEq]
  constructor
  · rintro (⟨held, below⟩ | same | ⟨held, above⟩)
    · exact .inr ⟨below.ne, held⟩
    · exact .inl same
    · exact .inr ⟨above.ne', held⟩
  · rintro (same | ⟨different, held⟩)
    · exact .inr (.inl same)
    · obtain below | above := lt_or_gt_of_ne different
      · exact .inl ⟨held, below⟩
      · exact .inr (.inr ⟨held, above⟩)

lemma Maps.unique (first : m.Maps k v) (second : m.Maps k v') : v = v' := by
  obtain ⟨before, after, split⟩ := append_of_mem first
  have sorted := split ▸ m.sorted
  have parts := pairwise_append.mp sorted
  have held : (k, v') ∈ before ++ (k, v) :: after := split ▸ second
  obtain left | right := mem_append.mp held
  · exact absurd (parts.2.2 _ left _ mem_cons_self) (lt_irrefl k)
  · obtain same | later := mem_cons.mp right
    · exact (Prod.mk.inj same).2.symm
    · exact absurd ((pairwise_cons.mp parts.2.1).1 _ later) (lt_irrefl k)

structure First (m : OrderedMap K V) (a k : K) (v : V) : Prop where
  held : m.Maps k v
  beyond : a < k
  first : ∀ k' v', m.Maps k' v' → a < k' → k ≤ k'

variable {a : K}

lemma upperBound_eq_none : m.upperBound a = none ↔ ∀ k v, m.Maps k v → k ≤ a := by
  rw [upperBound, find?_eq_none]
  simp [Maps]

lemma first_of_upperBound (found : m.upperBound a = some (k, v)) : m.First a k v := by
  obtain ⟨beyond, before, after, split, skipped⟩ := find?_eq_some_iff_append.mp found
  have parts := pairwise_append.mp (split ▸ m.sorted)
  have held : (k, v) ∈ m.entries := split ▸ mem_append_right _ mem_cons_self
  refine ⟨held, by simpa using beyond, ?_⟩
  intro k' v' held beyond'
  obtain left | right := mem_append.mp (split ▸ held : (k', v') ∈ before ++ (k, v) :: after)
  · exact absurd beyond' (by simpa using skipped _ left)
  · obtain same | later := mem_cons.mp right
    · exact (Prod.mk.inj same).1.ge
    · exact ((pairwise_cons.mp parts.2.1).1 _ later).le

lemma First.upperBound_eq (first : m.First a k v) : m.upperBound a = some (k, v) := by
  cases found : m.upperBound a with
  | none => exact absurd (upperBound_eq_none.mp found k v first.held) (not_le.mpr first.beyond)
  | some entry =>
    have other := first_of_upperBound (k := entry.1) (v := entry.2) found
    have same : entry.1 = k :=
      le_antisymm (other.first _ _ first.held first.beyond)
        (first.first _ _ other.held other.beyond)
    have value : entry.2 = v := (same ▸ other.held : m.Maps k entry.2).unique first.held
    rw [← same, ← value]

lemma upperBound_congr {m' : OrderedMap K V}
    (same : ∀ k v, a < k → (m.Maps k v ↔ m'.Maps k v)) : m.upperBound a = m'.upperBound a := by
  cases found : m'.upperBound a with
  | none =>
    refine upperBound_eq_none.mpr fun k v held => not_lt.mp fun beyond => ?_
    have none_beyond := upperBound_eq_none.mp found k v ((same k v beyond).mp held)
    exact absurd beyond (not_lt.mpr none_beyond)
  | some entry =>
    have first := first_of_upperBound (k := entry.1) (v := entry.2) found
    refine First.upperBound_eq ⟨(same _ _ first.beyond).mpr first.held, first.beyond, ?_⟩
    exact fun k v held beyond => first.first k v ((same k v beyond).mp held) beyond

end OrderedMap

/-!
## Lists of intervals

Intervals that follow one another without overlapping. Such a list stays in order when one of its
intervals is replaced by parts of it, and when intervals are dropped.
-/

structure Extent (α : Type*) where
  first : α
  second : α
  deriving DecidableEq, Repr

namespace Extent

variable {α : Type*} [Preorder α]

def Proper (i : Extent α) : Prop := i.first ≤ i.second

def Within (i j : Extent α) : Prop := j.first ≤ i.first ∧ i.second ≤ j.second

/-- Proper intervals, each of which ends before the later ones begin. -/
def Ordered (is : List (Extent α)) : Prop :=
  (∀ i ∈ is, i.Proper) ∧ is.Pairwise fun i j => i.second ≤ j.first

instance [DecidableLE α] (is : List (Extent α)) : Decidable (Ordered is) :=
  inferInstanceAs (Decidable ((∀ i ∈ is, i.first ≤ i.second) ∧
    is.Pairwise fun i j => i.second ≤ j.first))

variable {before after parts : List (Extent α)} {i : Extent α}

lemma Ordered.sublist {is js : List (Extent α)} (ordered : Ordered js) (sub : is.Sublist js) :
    Ordered is :=
  ⟨fun i hi => ordered.1 i (sub.subset hi), ordered.2.sublist sub⟩

lemma Ordered.replace (ordered : Ordered (before ++ i :: after)) (inOrder : Ordered parts)
    (within : ∀ p ∈ parts, p.Within i) : Ordered (before ++ (parts ++ after)) := by
  obtain ⟨proper, apart⟩ := ordered
  obtain ⟨first, rest, across⟩ := List.pairwise_append.mp apart
  obtain ⟨later, rest⟩ := List.pairwise_cons.mp rest
  refine ⟨fun j hj => ?_, List.pairwise_append.mpr ⟨first, List.pairwise_append.mpr
    ⟨inOrder.2, rest, fun p hp j hj => (within p hp).2.trans (later j hj)⟩, fun j hj k hk => ?_⟩⟩
  · rcases List.mem_append.mp hj with hj | hj
    · exact proper j (by simp [hj])
    · rcases List.mem_append.mp hj with hj | hj
      · exact inOrder.1 j hj
      · exact proper j (by simp [hj])
  · rcases List.mem_append.mp hk with hk | hk
    · exact (across j hj i (by simp)).trans (within k hk).1
    · exact across j hj k (by simp [hk])

end Extent

/-!
## Logs that are pruned at the front

The entries of a log carry stamps that do not decrease along it. Entries below a bound are dropped
from its front, and the bound never goes back. Nothing at or above the bound is lost that way, so
the pruned log has the same last entry as the whole one, unless that entry is below the bound.
-/

namespace Pruned

open List

variable {α β : Type*} [LinearOrder β] {stamp : α → β} {log : List α} {bound bound' : β}

def above (stamp : α → β) (bound : β) (log : List α) : List α :=
  log.filter fun a => bound ≤ stamp a

lemma above_append (log log' : List α) :
    above stamp bound (log ++ log') = above stamp bound log ++ above stamp bound log' :=
  filter_append ..

lemma dropWhile_eq (sorted : log.Pairwise fun a b => stamp a ≤ stamp b) (bound : β) :
    log.dropWhile (fun a => stamp a < bound) = above stamp bound log := by
  induction log with
  | nil => rfl
  | cons a log ih =>
    obtain ⟨least, rest⟩ := pairwise_cons.mp sorted
    by_cases below : stamp a < bound
    · rw [dropWhile_cons_of_pos (by simpa using below), ih rest, above, above,
        filter_cons_of_neg (by simpa using below)]
    · have kept : ∀ b ∈ a :: log, bound ≤ stamp b := by
        intro b mem
        rcases mem_cons.mp mem with rfl | mem
        · exact not_lt.mp below
        · exact (not_lt.mp below).trans (least b mem)
      rw [dropWhile_cons_of_neg (by simpa using below), above,
        filter_eq_self.mpr (by simpa using kept)]

lemma above_above (higher : bound ≤ bound') (log : List α) :
    above stamp bound' (above stamp bound log) = above stamp bound' log := by
  rw [above, above, above, filter_filter]
  refine filter_congr fun a _ => ?_
  simpa using higher.trans

lemma getLast?_above (sorted : log.Pairwise fun a b => stamp a ≤ stamp b) (bound : β) :
    (above stamp bound log).getLast? = log.getLast?.filter fun a => bound ≤ stamp a := by
  induction log using reverseRecOn with
  | nil => rfl
  | append_singleton log last _ =>
    obtain ⟨-, -, greatest⟩ := pairwise_append.mp sorted
    rw [above_append, getLast?_concat, Option.filter_some]
    by_cases below : bound ≤ stamp last
    · simp [above, below]
    · have gone : above stamp bound log = [] := by
        refine filter_eq_nil_iff.mpr fun a mem => ?_
        have smaller : stamp a < bound :=
          (greatest a mem last mem_cons_self).trans_lt (not_le.mp below)
        simpa using smaller
      rw [gone]
      simp [above, below]

lemma getLast?_filter_above (sorted : log.Pairwise fun a b => stamp a ≤ stamp b) (bound : β)
    (p : α → Bool) : ((above stamp bound log).filter p).getLast? =
      (log.filter p).getLast?.filter fun a => bound ≤ stamp a := by
  have swap : (above stamp bound log).filter p = above stamp bound (log.filter p) := by
    rw [above, above, filter_filter, filter_filter]
    exact filter_congr fun a _ => Bool.and_comm ..
  rw [swap]
  exact getLast?_above (sorted.filter p) bound

end Pruned

/-!
## Ranks in a list of numbers

The `k`-th largest number of a list, and how many of its numbers lie above a bound. The two are
the same information: the `k`-th largest is above a bound when at least `k` numbers are.
-/

namespace Ranked

open List

/-- How many numbers of the list are larger than `x`. -/
def above (x : ℕ) (xs : List ℕ) : ℕ := xs.countP fun y => decide (x < y)

/-- The `k`-th largest number of the list, the largest one being the first; 0 if there are fewer
than `k`. -/
def kthLargest (k : ℕ) (xs : List ℕ) : ℕ :=
  (xs.insertionSort (· ≥ ·)).getD (k - 1) 0

variable {x : ℕ}

variable {xs : List ℕ}

lemma above_eq_zero (low : ∀ y ∈ xs, y ≤ x) : above x xs = 0 := by
  refine countP_eq_zero.mpr fun y hy => ?_
  simpa using low y hy

lemma above_append (xs ys : List ℕ) : above x (xs ++ ys) = above x xs + above x ys := countP_append

lemma above_singleton (y : ℕ) : above x [y] = if x < y then 1 else 0 := by
  simp [above, countP_singleton]

lemma above_set {i z : ℕ} (old : xs[i]? = some z) (y : ℕ) :
    above x (xs.set i y) = above x xs - (if x < z then 1 else 0) + if x < y then 1 else 0 := by
  obtain ⟨inside, rfl⟩ := List.getElem?_eq_some_iff.mp old
  simp [above, countP_set, inside]

lemma above_le_length (xs : List ℕ) : above x xs ≤ xs.length := countP_le_length

lemma above_eq_length : above x xs = xs.length ↔ ∀ y ∈ xs, x < y := by
  simp [above, countP_eq_length]

lemma above_lt_length {y : ℕ} (mem : y ∈ xs) (low : y ≤ x) : above x xs < xs.length := by
  refine lt_of_le_of_ne (above_le_length xs) fun all => ?_
  exact absurd (above_eq_length.mp all y mem) (Nat.not_lt.mpr low)

lemma lt_getD_iff (falling : xs.Pairwise (· ≥ ·)) (n : ℕ) : x < xs.getD n 0 ↔ n < above x xs := by
  induction xs generalizing n with
  | nil => simp [above]
  | cons a xs ih =>
    obtain ⟨first, falling⟩ := pairwise_cons.mp falling
    have split : above x (a :: xs) = above x [a] + above x xs := above_append [a] xs
    rw [above_singleton] at split
    by_cases high : x < a
    · rw [if_pos high] at split
      cases n with
      | zero =>
        rw [getD_cons_zero, split]
        omega
      | succ n =>
        rw [getD_cons_succ, ih falling, split]
        omega
    · have none : above x xs = 0 :=
        above_eq_zero fun y hy => (first y hy).trans (Nat.le_of_not_lt high)
      rw [if_neg high, none] at split
      cases n with
      | zero => simp [split, high]
      | succ n =>
        rw [getD_cons_succ, ih falling, split, none]
        omega

lemma lt_kthLargest_iff {k : ℕ} (pos : 1 ≤ k) (xs : List ℕ) :
    x < kthLargest k xs ↔ k ≤ above x xs := by
  have same : above x (xs.insertionSort (· ≥ ·)) = above x xs :=
    (xs.perm_insertionSort (· ≥ ·)).countP_eq _
  rw [kthLargest, lt_getD_iff (xs.pairwise_insertionSort (· ≥ ·)), same]
  omega

end Ranked
