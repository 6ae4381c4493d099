import Mathlib.Data.List.Basic
import Mathlib.Data.List.FinRange
import Mathlib.Data.List.Induction
import Mathlib.Data.List.Perm.Basic
import Mathlib.Data.List.Range
import Mathlib.Order.Lattice

/-!
# Selections from a list

Loops that search a list or an index range, that remember the best of what they have seen, that take
entries out one by one or that strike them out where they stand.
-/

/-!
## Linear scans of an array

Searches of the index range `0 .. n-1` by a Boolean test, from the bottom up
and from the top down. A scan is pinned down by its test alone: it fails when
no index passes, and when exactly one index passes the direction is irrelevant.
-/

namespace Scan

open List

variable {n : Nat} {p q : Fin n → Bool} {i : Fin n}

def up (p : Fin n → Bool) : Option (Fin n) := (finRange n).find? p

def down (p : Fin n → Bool) : Option (Fin n) := (finRange n).reverse.find? p

lemma up_holds (h : up p = some i) : p i = true := find?_some h

lemma up_eq_none : up p = none ↔ ∀ i, p i = false := by
  simp [up, find?_eq_none]

lemma down_holds (h : down p = some i) : p i = true := find?_some h

lemma down_eq_none : down p = none ↔ ∀ i, p i = false := by
  simp [down, find?_eq_none]

lemma down_isSome (h : p i = true) : ∃ j, down p = some j ∧ p j = true := by
  cases hd : down p with
  | none =>
    have none_passes := down_eq_none.mp hd i
    rw [h] at none_passes
    cases none_passes
  | some j => exact ⟨j, rfl, down_holds hd⟩

lemma down_eq_of_unique (hi : p i = true) (unique : ∀ j, p j = true → j = i) : down p = some i := by
  obtain ⟨j, hj, pass⟩ := down_isSome hi
  rw [hj, unique j pass]

lemma down_congr (h : ∀ i, p i = q i) : down p = down q := by
  rw [show p = q from funext h]

end Scan

/-!
## The first of the best

A loop over the numbers below a bound remembers the number with the largest score among those that
qualify. Only a larger score takes over, so of equal ones the first is kept, and one that is not
above the score the loop begins with is not taken at all.
-/

namespace FirstBest

variable {β : Type*} [LinearOrder β] {p : ℕ → Prop} [DecidablePred p] {f : ℕ → β} {floor : β}
  {m x y : ℕ}

def best (p : ℕ → Prop) [DecidablePred p] (f : ℕ → β) (floor : β) (m : ℕ) : Option ℕ × β :=
  (List.range m).foldl (fun best x => if p x ∧ best.2 < f x then (some x, f x) else best)
    (none, floor)

structure Wins (p : ℕ → Prop) (f : ℕ → β) (floor : β) (m x : ℕ) : Prop where
  below : x < m
  qualifies : p x
  above : floor < f x
  beats : ∀ y < m, p y → f y < f x ∨ (f y = f x ∧ x ≤ y)

lemma best_succ : best p f floor (m + 1) =
    if p m ∧ (best p f floor m).2 < f m then (some m, f m) else best p f floor m := by
  rw [best, List.range_succ, List.foldl_append]
  rfl

lemma best_spec (p : ℕ → Prop) [DecidablePred p] (f : ℕ → β) (floor : β) (m : ℕ) :
    (best p f floor m = (none, floor) ∧ ∀ y < m, p y → f y ≤ floor) ∨
      ∃ x, best p f floor m = (some x, f x) ∧ Wins p f floor m x := by
  induction m with
  | zero => exact .inl ⟨rfl, by omega⟩
  | succ m ih =>
    rw [best_succ]
    rcases ih with ⟨same, low⟩ | ⟨x, same, wins⟩
    · rw [same]
      split
      · rename_i better
        refine .inr ⟨m, rfl, Nat.lt_succ_self m, better.1, better.2, fun y before qualifies => ?_⟩
        rcases Nat.lt_succ_iff_lt_or_eq.mp before with before | rfl
        · exact .inl ((low y before qualifies).trans_lt better.2)
        · exact .inr ⟨rfl, le_rfl⟩
      · rename_i notBetter
        refine .inl ⟨rfl, fun y before qualifies => ?_⟩
        rcases Nat.lt_succ_iff_lt_or_eq.mp before with before | rfl
        · exact low y before qualifies
        · exact not_lt.mp fun higher => notBetter ⟨qualifies, higher⟩
    · rw [same]
      split
      · rename_i better
        refine .inr ⟨m, rfl, Nat.lt_succ_self m, better.1, wins.above.trans better.2,
          fun y before qualifies => ?_⟩
        rcases Nat.lt_succ_iff_lt_or_eq.mp before with before | rfl
        · rcases wins.beats y before qualifies with lower | ⟨equal, -⟩
          · exact .inl (lower.trans better.2)
          · exact .inl (equal ▸ better.2)
        · exact .inr ⟨rfl, le_rfl⟩
      · rename_i notBetter
        refine .inr ⟨x, rfl, Nat.lt_succ_of_lt wins.below, wins.qualifies, wins.above,
          fun y before qualifies => ?_⟩
        rcases Nat.lt_succ_iff_lt_or_eq.mp before with before | rfl
        · exact wins.beats y before qualifies
        · have lower : f y ≤ f x := not_lt.mp fun higher => notBetter ⟨qualifies, higher⟩
          rcases lower.lt_or_eq with lower | equal
          · exact .inl lower
          · exact .inr ⟨equal, wins.below.le⟩

lemma wins_of_best (selected : (best p f floor m).1 = some x) : Wins p f floor m x := by
  rcases best_spec p f floor m with ⟨same, -⟩ | ⟨y, same, wins⟩
  · rw [same] at selected
    cases selected
  · rw [same] at selected
    exact Option.some.inj selected ▸ wins

lemma best_or_beaten (below : x < m) (qualifies : p x) (above : floor < f x) :
    (best p f floor m).1 = some x ∨
      ∃ y, Wins p f floor m y ∧ (f x < f y ∨ (f x = f y ∧ y < x)) := by
  rcases best_spec p f floor m with ⟨-, low⟩ | ⟨y, same, wins⟩
  · exact absurd above (low x below qualifies).not_gt
  · by_cases equal : y = x
    · exact .inl (by rw [same, equal])
    · refine .inr ⟨y, wins, ?_⟩
      rcases wins.beats x below qualifies with lower | ⟨scores, first⟩
      · exact .inl lower
      · exact .inr ⟨scores, lt_of_le_of_ne first equal⟩

end FirstBest

/-!
## Picking from a list

A loop takes the first element that meets a test out of a list, a number of times. What it has taken
are the first ones that meet the test, and what it leaves is the rest of the list in its order.
-/

namespace Picked

open List

variable {α : Type*} {p : α → Bool} {a : α} {l : List α}

def picked (p : α → Bool) (n : ℕ) (l : List α) : List α := (l.filter p).take n

def left (p : α → Bool) : ℕ → List α → List α
  | 0, l => l
  | n + 1, l => left p n (l.eraseP p)

section

variable (found : l.find? p = some a)

include found

lemma exists_split : ∃ before after,
    l = before ++ a :: after ∧ l.eraseP p = before ++ after ∧ before.filter p = [] ∧
      p a = true := by
  obtain ⟨meets, before, after, rfl, fail⟩ := find?_eq_some_iff_append.mp found
  have fail : ∀ b ∈ before, ¬ p b = true := fun b mem => by simpa using fail b mem
  refine ⟨before, after, rfl, ?_, filter_eq_nil_iff.mpr fail, meets⟩
  rw [eraseP_append_right _ fail, eraseP_cons_of_pos meets]

lemma perm_eraseP : l.Perm (a :: l.eraseP p) := by
  obtain ⟨before, after, whole, erased, -, -⟩ := exists_split found
  rw [erased, whole]
  exact perm_middle

lemma filter_eq_cons : l.filter p = a :: (l.eraseP p).filter p := by
  obtain ⟨before, after, whole, erased, fail, meets⟩ := exists_split found
  rw [erased, whole, filter_append, filter_append, fail, filter_cons_of_pos meets]
  rfl

lemma picked_succ (n : ℕ) : picked p (n + 1) l = a :: picked p n (l.eraseP p) := by
  rw [picked, filter_eq_cons found, take_succ_cons, picked]

end

lemma picked_eq_nil (none : l.find? p = none) (n : ℕ) : picked p n l = [] := by
  have empty : l.filter p = [] := filter_eq_nil_iff.mpr (find?_eq_none.mp none)
  rw [picked, empty, take_nil]

lemma left_eq_self (none : l.find? p = none) (n : ℕ) : left p n l = l := by
  induction n with
  | zero => rfl
  | succ n ih => rw [left, eraseP_of_forall_not (find?_eq_none.mp none), ih]

lemma perm_append (p : α → Bool) (n : ℕ) (l : List α) : l.Perm (picked p n l ++ left p n l) := by
  induction n generalizing l with
  | zero => exact .refl l
  | succ n ih =>
    cases found : l.find? p with
    | none => rw [picked_eq_nil found, left_eq_self found, nil_append]
    | some a =>
      rw [picked_succ found, left, cons_append]
      exact (perm_eraseP found).trans ((ih (l.eraseP p)).cons a)

lemma picked_sublist (p : α → Bool) (n : ℕ) (l : List α) : (picked p n l).Sublist l :=
  (take_sublist n _).trans filter_sublist

lemma left_eq_nil_iff (p : α → Bool) (n : ℕ) (l : List α) :
    left p n l = [] ↔ l.length ≤ n ∧ ∀ a ∈ l, p a = true := by
  have sizes := (perm_append p n l).length_eq
  rw [length_append, picked, length_take] at sizes
  have filtered := length_filter_le p l
  rw [← length_eq_zero_iff, ← length_filter_eq_length_iff]
  omega

end Picked

/-!
## The survivors of a list

Some elements of a list are struck out where they stand. What is left is the list filtered by a
predicate. The first and the last of what is left can be marked, and what is left can be given its
positions by counting along the whole list.
-/

namespace Survivors

open List

variable {α : Type*} {p q : α → Bool} {f : α → α} {l v : List α}

def mapFirst (p : α → Bool) (f : α → α) : List α → List α
  | [] => []
  | a :: l => if p a then f a :: l else a :: mapFirst p f l

def mapLast (p : α → Bool) (f : α → α) (l : List α) : List α := (mapFirst p f l.reverse).reverse

lemma mem_mapFirst {a : α} (mem : a ∈ mapFirst p f l) : a ∈ l ∨ ∃ b ∈ l, p b = true ∧ a = f b := by
  induction l with
  | nil => cases mem
  | cons b l ih =>
    rw [mapFirst] at mem
    split at mem
    · next here =>
      rcases mem_cons.mp mem with rfl | mem
      · exact .inr ⟨b, mem_cons_self, here, rfl⟩
      · exact .inl (mem_cons_of_mem _ mem)
    · rcases mem_cons.mp mem with rfl | mem
      · exact .inl mem_cons_self
      · rcases ih mem with there | ⟨c, there, found⟩
        · exact .inl (mem_cons_of_mem _ there)
        · exact .inr ⟨c, mem_cons_of_mem _ there, found⟩

lemma filter_mapFirst (same : ∀ a, p (f a) = p a) (l : List α) :
    (mapFirst p f l).filter p = (l.filter p).modifyHead f := by
  induction l with
  | nil => rfl
  | cons a l ih =>
    rw [mapFirst]
    cases here : p a with
    | true => simp [here, same]
    | false => simpa [filter_cons, here] using ih

lemma filter_mapLast (same : ∀ a, p (f a) = p a) (l : List α) :
    (mapLast p f l).filter p = ((l.filter p).reverse.modifyHead f).reverse := by
  rw [mapLast, filter_reverse, filter_mapFirst same, filter_reverse]

lemma map_mapFirst {β : Type*} {g : α → β} (same : ∀ a, g (f a) = g a) (l : List α) :
    (mapFirst p f l).map g = l.map g := by
  induction l with
  | nil => rfl
  | cons a l ih =>
    rw [mapFirst]
    split
    · simp [same]
    · simp [ih]

lemma map_mapLast {β : Type*} {g : α → β} (same : ∀ a, g (f a) = g a) (l : List α) :
    (mapLast p f l).map g = l.map g := by
  rw [mapLast, map_reverse, map_mapFirst same, map_reverse, reverse_reverse]

lemma map_modify {β : Type*} {g : α → β} (same : ∀ a, g (f a) = g a) (l : List α) (i : ℕ) :
    (l.modify i f).map g = l.map g := by
  induction l generalizing i with
  | nil => simp
  | cons a l ih =>
    cases i with
    | zero => simp [same]
    | succ i => simp [ih]

lemma map_modifyHead {β : Type*} {g : α → β} (same : ∀ a, g (f a) = g a) (l : List α) :
    (l.modifyHead f).map g = l.map g := by
  cases l with
  | nil => rfl
  | cons a l => simp [same]

lemma map_filter_congr {β : Type*} {g : α → β} {l' : List α}
    (same : l'.map (fun a => (p a, g a)) = l.map fun a => (p a, g a)) :
    (l'.filter p).map g = (l.filter p).map g := by
  have view (l : List α) :
      (l.filter p).map g = ((l.map fun a => (p a, g a)).filter Prod.fst).map Prod.snd := by
    simp [filter_map, Function.comp_def]
  rw [view, same, ← view]

lemma filter_modify_sublist (out : ∀ a, p (f a) = false) (l : List α) (i : ℕ) :
    ((l.modify i f).filter p).Sublist (l.filter p) := by
  induction l generalizing i with
  | nil => simp
  | cons a l ih =>
    cases i with
    | zero =>
      simp only [modify_zero_cons, filter_cons, out]
      cases p a with
      | true => exact sublist_cons_self _ _
      | false => exact List.Sublist.refl _
    | succ i =>
      simp only [modify_succ_cons, filter_cons]
      cases p a with
      | true => exact (ih i).cons_cons a
      | false => exact ih i

/-! ### Marks -/

def OnlyHead (q : α → Bool) : List α → Prop
  | [] => False
  | a :: l => q a = true ∧ ∀ b ∈ l, q b = false

lemma OnlyHead.countP (only : OnlyHead q v) : v.countP q = 1 := by
  cases v with
  | nil => cases only
  | cons a v =>
    have none : v.countP q = 0 := countP_eq_zero.mpr fun b mem => by simp [only.2 b mem]
    rw [countP_cons, none, only.1]
    rfl

lemma OnlyHead.mark {v' : List α} (only : OnlyHead q v) (fewer : (v'.map q).Sublist (v.map q))
    (some : v' ≠ []) (marks : ∀ a, q (f a) = true) : OnlyHead q (v'.modifyHead f) := by
  cases v with
  | nil => cases only
  | cons a v =>
    cases v' with
    | nil => exact absurd rfl some
    | cons a' v' =>
      refine ⟨marks a', fun b mem => ?_⟩
      obtain ⟨c, here, equal⟩ := mem_map.mp (fewer.tail.subset (mem_map_of_mem mem))
      exact equal.symm.trans (only.2 c here)

lemma OnlyHead.congr {β : Type*} {q' : β → Bool} {v' : List β} (only : OnlyHead q v)
    (same : v'.map q' = v.map q) : OnlyHead q' v' := by
  cases v with
  | nil => cases only
  | cons a v =>
    cases v' with
    | nil => cases same
    | cons a' v' =>
      obtain ⟨head, tail⟩ := cons.inj same
      refine ⟨head.trans only.1, fun b mem => ?_⟩
      have image : q' b ∈ v.map q := tail ▸ mem_map_of_mem mem
      obtain ⟨c, here, equal⟩ := mem_map.mp image
      exact equal.symm.trans (only.2 c here)

/-! ### Positions -/

/-- Counting the survivors before each element gives each survivor its position among them. -/
theorem filter_mapIdx_rank {β : Type*} {h : ℕ → α → α} {g : ℕ → α → β} {view : α → β}
    (same : ∀ i a, p (h i a) = p a)
    (gives : ∀ i a, l[i]? = some a → p a = true → view (h i a) = g ((l.take i).countP p) a) :
    ((l.mapIdx h).filter p).map view = (l.filter p).mapIdx g := by
  induction l using reverseRecOn with
  | nil => rfl
  | append_singleton l a ih =>
    have before : ∀ i b, l[i]? = some b → p b = true →
        view (h i b) = g ((l.take i).countP p) b := by
      intro i b here survives
      have below := (List.getElem?_eq_some_iff.mp here).1
      have given := gives i b ((getElem?_append_left below).trans here) survives
      rwa [take_append_of_le_length (Nat.le_of_lt below)] at given
    rw [mapIdx_append, filter_append, map_append, ih before, filter_append]
    cases here : p a with
    | true =>
      have last := gives l.length a (by simp) here
      simpa [same, here, mapIdx_append, countP_eq_length_filter] using last
    | false => simp [same, here]

end Survivors
