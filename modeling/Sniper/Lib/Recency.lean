import Mathlib.Data.Fintype.Card
import Mathlib.Data.List.FinRange

/-!
# Age counters and recency

A move-to-front counter array keeps one age for each slot. Touching a slot sets its age to zero and
adds one to the ages below the old age of that slot, but only for the slots that take part in the
ageing. On any set of slots that all take part, distinct ages stay distinct and the order of the
other slots is unchanged, so the counters go on sorting the slots by their last touch.
-/

namespace Recency

open List

section Ages

variable {α : Type*} [DecidableEq α]

/-- The ages after slot `w` is touched while the slots in `ageing` take part. -/
def touch (age : α → Nat) (ageing : α → Bool) (w : α) : α → Nat := fun v =>
  if v = w then 0
  else if ageing v && age v < age w then age v + 1
  else age v

variable {age : α → Nat} {ageing : α → Bool} {w : α} {S V : Set α} {history : List α}

@[simp] lemma touch_self : touch age ageing w w = 0 := by simp [touch]

lemma touch_other {v : α} (hv : v ≠ w) (on : ageing v = true) :
    touch age ageing w v = if age v < age w then age v + 1 else age v := by
  simp [touch, hv, on]

def ageStep (ageing : α → Bool) (w : α) (age : α → Nat) (v : α) : α → Nat :=
  if ageing v && age v < age w then Function.update age v (age v + 1) else age

variable {slots : List α}

lemma foldl_ageStep (once : slots.Nodup) (v : α) : slots.foldl (ageStep ageing w) age v =
      if v ∈ slots ∧ ageing v = true ∧ age v < age w then age v + 1 else age v := by
  induction slots generalizing age with
  | nil => simp
  | cons u slots ih =>
    obtain ⟨notLater, once⟩ := nodup_cons.mp once
    -- the age of the touched slot is not below itself and stays
    have touched : ageStep ageing w age u w = age w := by
      unfold ageStep
      split
      · next older =>
        refine Function.update_of_ne ?_ _ _
        rintro rfl
        simp at older
      · rfl
    rw [foldl_cons, ih once, touched]
    by_cases here : v = u
    · subst here
      simp only [notLater, false_and, if_false, mem_cons, true_or, true_and]
      by_cases older : ageing v = true ∧ age v < age w
      · simp [ageStep, older]
      · rw [if_neg older, ageStep, if_neg (by simpa using older)]
    · have other : ageStep ageing w age u v = age v := by
        unfold ageStep
        split
        · exact Function.update_of_ne here _ _
        · rfl
      simp [other, here]

lemma update_foldl_ageStep (once : slots.Nodup) (all : ∀ v, v ∈ slots) :
    Function.update (slots.foldl (ageStep ageing w) age) w 0 = touch age ageing w := by
  funext v
  by_cases here : v = w
  · subst here
    rw [Function.update_self, touch_self]
  · rw [Function.update_of_ne here, foldl_ageStep once, touch, if_neg here]
    simp [all v]

section

variable (takesPart : ∀ v ∈ S, ageing v = true)

include takesPart

lemma touch_lt_touch (hw : w ∈ S)
    (distinct : Set.InjOn age S) {i j : α} (hi : i ∈ S) (hj : j ∈ S) (hiw : i ≠ w) (hjw : j ≠ w) :
    touch age ageing w i < touch age ageing w j ↔ age i < age j := by
  have hne : age j ≠ age w := fun h => hjw (distinct hj hw h)
  rw [touch_other hiw (takesPart i hi), touch_other hjw (takesPart j hj)]
  split <;> split <;> omega

lemma touch_pos (hw : w ∈ S)
    (distinct : Set.InjOn age S) {v : α} (hv : v ∈ S) (hvw : v ≠ w) : 0 < touch age ageing w v := by
  have hne : age v ≠ age w := fun h => hvw (distinct hv hw h)
  rw [touch_other hvw (takesPart v hv)]
  split <;> omega

lemma touch_injOn (hw : w ∈ S) (distinct : Set.InjOn age S) : Set.InjOn (touch age ageing w) S := by
  intro i hi j hj same
  by_cases hiw : i = w
  · by_contra hne
    have hjw : j ≠ w := fun h => hne (hiw.trans h.symm)
    have := touch_pos takesPart hw distinct hj hjw
    rw [← same, hiw, touch_self] at this
    omega
  · by_cases hjw : j = w
    · have := touch_pos takesPart hw distinct hi hiw
      rw [same, hjw, touch_self] at this
      omega
    · have hij := touch_lt_touch takesPart hw distinct hi hj hiw hjw
      have hji := touch_lt_touch takesPart hw distinct hj hi hjw hiw
      exact distinct hi hj (by omega)

end

/-- On the slots in `V` the ages sort by the last touch. -/
def Sorted (age : α → Nat) (history : List α) (V : Set α) : Prop :=
  ∀ i ∈ V, ∀ j ∈ V, age i < age j → history.idxOf i < history.idxOf j

lemma Sorted.mono (sorted : Sorted age history V) {U : Set α} (sub : U ⊆ V) :
    Sorted age history U :=
  fun i hi j hj => sorted i (sub hi) j (sub hj)

/-- A touch keeps the counters sorted, and brings the touched slot into the
sorted part whether or not it was there before. -/
theorem Sorted.touch (sorted : Sorted age history V) (sub : V ⊆ S)
    (takesPart : ∀ v ∈ S, ageing v = true) (hw : w ∈ S) (distinct : Set.InjOn age S) :
    Sorted (Recency.touch age ageing w) (w :: history) (insert w V) := by
  intro i hi j hj younger
  by_cases hjw : j = w
  · rw [hjw, touch_self] at younger
    omega
  have hjV : j ∈ V := hj.resolve_left hjw
  by_cases hiw : i = w
  · subst hiw
    simp [Ne.symm hjw]
  · have hiV : i ∈ V := hi.resolve_left hiw
    have older := (touch_lt_touch takesPart hw distinct (sub hiV) (sub hjV) hiw hjw).mp younger
    have := sorted i hiV j hjV older
    simpa [idxOf_cons, Ne.symm hiw, Ne.symm hjw] using this

/-- The other slots of `V` were all touched more recently than `w`. -/
def Oldest (history : List α) (V : Set α) (w : α) : Prop :=
  w ∈ V ∧ ∀ v ∈ V, v ≠ w → history.idxOf v < history.idxOf w

lemma Sorted.oldest (sorted : Sorted age history V) (distinct : Set.InjOn age V)
    (hw : w ∈ V) (maximal : ∀ v ∈ V, age v ≤ age w) : Oldest history V w := by
  refine ⟨hw, fun v hv hvw => sorted v hv w hw ?_⟩
  have hne : age v ≠ age w := fun h => hvw (distinct hv hw h)
  have := maximal v hv
  omega

end Ages

section Search

variable {n : Nat}

def better (age : Fin n → Nat) (eligible : Fin n → Bool) (best : Fin n × Nat) (i : Fin n) :
    Fin n × Nat :=
  if best.2 < age i && eligible i then (i, age i) else best

/-- The first eligible slot of largest age, and `start` when no eligible slot
has a positive age. -/
def eldest (age : Fin n → Nat) (eligible : Fin n → Bool) (start : Fin n) : Fin n :=
  ((finRange n).foldl (better age eligible) (start, 0)).1

variable {age : Fin n → Nat} {eligible : Fin n → Bool}

lemma foldl_better (age : Fin n → Nat) (eligible : Fin n → Bool) (l : List (Fin n))
    (best : Fin n × Nat) (fits : best.2 ≤ age best.1) :
    let r := l.foldl (better age eligible) best
    r.2 ≤ age r.1 ∧ best.2 ≤ r.2 ∧ (r.1 = best.1 ∨ eligible r.1 = true) ∧
      ∀ i ∈ l, eligible i = true → age i ≤ r.2 := by
  induction l generalizing best with
  | nil => exact ⟨fits, le_rfl, .inl rfl, by simp⟩
  | cons i l ih =>
    simp only [foldl_cons]
    by_cases hb : (best.2 < age i && eligible i) = true
    · have hi : best.2 < age i ∧ eligible i = true := by simpa using hb
      have next : better age eligible best i = (i, age i) := if_pos hb
      rw [next]
      obtain ⟨h1, h2, h3, h4⟩ := ih (i, age i) le_rfl
      refine ⟨h1, by simp only at h2; omega, ?_, ?_⟩
      · rcases h3 with h3 | h3
        · exact .inr (h3 ▸ hi.2)
        · exact .inr h3
      · intro j hj ej
        rcases mem_cons.mp hj with rfl | hj
        · exact h2
        · exact h4 j hj ej
    · have next : better age eligible best i = best := if_neg hb
      rw [next]
      obtain ⟨h1, h2, h3, h4⟩ := ih best fits
      refine ⟨h1, h2, h3, ?_⟩
      intro j hj ej
      rcases mem_cons.mp hj with rfl | hj
      · have : ¬ best.2 < age j := by simpa [ej] using hb
        omega
      · exact h4 j hj ej

lemma eldest_cases (age : Fin n → Nat) (eligible : Fin n → Bool) (start : Fin n) :
    eldest age eligible start = start ∨ eligible (eldest age eligible start) = true :=
  (foldl_better age eligible (finRange n) (start, 0) (Nat.zero_le _)).2.2.1

lemma foldl_better_cases (age : Fin n → Nat) (eligible : Fin n → Bool) (l : List (Fin n))
    (best : Fin n × Nat) :
    let r := l.foldl (better age eligible) best
    r = best ∨ eligible r.1 = true ∧ best.2 < age r.1 := by
  induction l generalizing best with
  | nil => exact .inl rfl
  | cons i l ih =>
    rw [foldl_cons]
    by_cases hb : (best.2 < age i && eligible i) = true
    · have hi : best.2 < age i ∧ eligible i = true := by simpa using hb
      have next : better age eligible best i = (i, age i) := if_pos hb
      rw [next]
      rcases ih (i, age i) with same | ⟨free, older⟩
      · rw [same]
        exact .inr ⟨hi.2, hi.1⟩
      · exact .inr ⟨free, hi.1.trans older⟩
    · have next : better age eligible best i = best := if_neg hb
      rw [next]
      exact ih best

/-- The search falls back on its start when every eligible slot has age zero, and otherwise
finds an eligible slot of positive age. -/
theorem eldest_found (age : Fin n → Nat) (eligible : Fin n → Bool) (start : Fin n) :
    eldest age eligible start = start ∧ (∀ i, eligible i = true → age i = 0) ∨
      eligible (eldest age eligible start) = true ∧ 0 < age (eldest age eligible start) := by
  have found := foldl_better age eligible (finRange n) (start, 0) (Nat.zero_le _)
  rcases foldl_better_cases age eligible (finRange n) (start, 0) with same | older
  · refine .inl ⟨congrArg Prod.fst same, fun i hi => ?_⟩
    have := found.2.2.2 i (mem_finRange i) hi
    rw [same] at this
    exact Nat.le_zero.mp this
  · exact .inr older

lemma le_eldest {start i : Fin n} (hi : eligible i = true) :
    age i ≤ age (eldest age eligible start) := by
  have found := foldl_better age eligible (finRange n) (start, 0) (Nat.zero_le _)
  exact (found.2.2.2 i (mem_finRange i) hi).trans found.1

end Search

end Recency

/-!
## Stacks of recently used keys

A least recently used store of bounded size is a list of distinct keys, latest use first. An access
moves its key to the front and cuts the list to size, so that after any run the list is the longest
part that fits of the distinct keys by their last use.

A store in slots keeps such a stack when its slots, listed by an order of youth, hold the keys of
the stack.
-/

namespace LruStack

open List Function Fintype

variable {K : Type*} [DecidableEq K]

def access (size : ℕ) (stack : List K) (key : K) : List K :=
  (key :: stack.filter (· ≠ key)).take size

lemma filter_ne_of_notMem {stack : List K} {key : K} (absent : key ∉ stack) :
    stack.filter (· ≠ key) = stack :=
  filter_eq_self.mpr fun _ held => decide_eq_true fun same => absent (same ▸ held)

lemma dedup_append_singleton (keys : List K) (key : K) :
    (keys ++ [key]).dedup = keys.dedup.filter (· ≠ key) ++ [key] := by
  induction keys with
  | nil => simp
  | cons first rest ih =>
    by_cases again : first ∈ rest
    · rw [cons_append, dedup_cons_of_mem (mem_append_left _ again), ih, dedup_cons_of_mem again]
    · rw [dedup_cons_of_notMem again]
      by_cases same : first = key
      · rw [cons_append, dedup_cons_of_mem (by simp [same]), ih]
        simp [same]
      · rw [cons_append, dedup_cons_of_notMem (by simp [again, same]), ih]
        simp [same]

lemma take_filter_take {stack : List K} (distinct : stack.Nodup) (key : K) (size : ℕ) :
    ((stack.take (size + 1)).filter (· ≠ key)).take size = (stack.filter (· ≠ key)).take size := by
  induction stack generalizing size with
  | nil => simp
  | cons first rest ih =>
    obtain ⟨absent, distinct⟩ := nodup_cons.mp distinct
    by_cases same : first = key
    · subst same
      have cut : first ∉ rest.take size := fun held => absent (mem_of_mem_take held)
      rw [take_succ_cons, filter_cons_of_neg (by simp), filter_cons_of_neg (by simp),
        filter_ne_of_notMem cut, filter_ne_of_notMem absent, take_take, min_self]
    · rw [take_succ_cons, filter_cons_of_pos (by simpa using same),
        filter_cons_of_pos (by simpa using same)]
      cases size with
      | zero => rfl
      | succ size => rw [take_succ_cons, take_succ_cons, ih distinct]

lemma foldl_access (size : ℕ) (keys : List K) :
    keys.foldl (access (size + 1)) [] = keys.dedup.reverse.take (size + 1) := by
  induction keys using reverseRecOn with
  | nil => simp
  | append_singleton keys key ih =>
    rw [foldl_append, ih, foldl_cons, foldl_nil, access, dedup_append_singleton, reverse_append,
      reverse_singleton, singleton_append, take_succ_cons, take_succ_cons,
      take_filter_take (nodup_reverse.mpr keys.nodup_dedup), filter_reverse]

section Slots

variable {W : Type*}

structure Listing (younger : W → W → Prop) (held : W → Option K) (stack : List K)
    (slots : List W) : Prop where
  ordered : slots.Pairwise younger
  full : ∀ w, w ∈ slots ↔ held w ≠ none
  keys : slots.map held = stack.map some
  distinct : stack.Nodup

variable {younger younger' : W → W → Prop} {held : W → Option K} {stack : List K} {slots : List W}
  {w : W} {key : K}

omit [DecidableEq K] in
lemma Listing.mem_iff (listing : Listing younger held stack slots) :
    key ∈ stack ↔ ∃ w, held w = some key := by
  have keyed : key ∈ stack ↔ some key ∈ slots.map held := by
    rw [listing.keys, mem_map_of_injective (Option.some_injective _)]
  rw [keyed, mem_map]
  constructor
  · rintro ⟨w, -, found⟩
    exact ⟨w, found⟩
  · rintro ⟨w, found⟩
    exact ⟨w, (listing.full w).mpr (by simp [found]), found⟩

omit [DecidableEq K] in
lemma Listing.nodup (listing : Listing younger held stack slots) : slots.Nodup := by
  refine List.Nodup.of_map held ?_
  rw [listing.keys]
  exact listing.distinct.map (Option.some_injective _)

variable [DecidableEq W]

structure Rejuvenates (younger younger' : W → W → Prop) (held : W → Option K) (w : W) : Prop where
  front : ∀ v, v ≠ w → held v ≠ none → younger' w v
  others : ∀ u v, u ≠ w → v ≠ w → held u ≠ none → held v ≠ none → younger u v → younger' u v

omit [DecidableEq K] in
lemma Listing.place (listing : Listing younger held stack slots)
    (moved : Rejuvenates younger younger' held w) {rest : List K}
    (keys : (slots.filter (· ≠ w)).map held = rest.map some) (distinct : (key :: rest).Nodup) :
    Listing younger' (update held w (some key)) (key :: rest) (w :: slots.filter (· ≠ w)) := by
  have others : ∀ v, v ∈ slots.filter (· ≠ w) ↔ v ≠ w ∧ held v ≠ none := by
    intro v
    rw [mem_filter, listing.full, and_comm, decide_eq_true_eq]
  refine ⟨pairwise_cons.mpr ⟨fun v held => ?_, ?_⟩, fun v => ?_, ?_, distinct⟩
  · exact moved.front v ((others v).mp held).1 ((others v).mp held).2
  · refine (listing.ordered.filter _).imp_of_mem fun {u v} hu hv order => ?_
    obtain ⟨hu, hu'⟩ := (others u).mp hu
    obtain ⟨hv, hv'⟩ := (others v).mp hv
    exact moved.others u v hu hv hu' hv' order
  · by_cases same : v = w
    · simp [same]
    · rw [mem_cons, or_iff_right same, others, update_of_ne same, and_iff_right same]
  · rw [map_cons, map_cons, update_self, ← keys]
    congr 1
    refine map_congr_left fun v held => ?_
    rw [update_of_ne ((others v).mp held).1]

variable [Fintype W]

omit [DecidableEq K] [DecidableEq W] in
lemma Listing.length_le (listing : Listing younger held stack slots) : stack.length ≤ card W := by
  have same : slots.length = stack.length := by simpa using congrArg length listing.keys
  rw [← same]
  exact listing.nodup.length_le_card

omit [DecidableEq W] in
lemma Listing.access_eq (listing : Listing younger held (key :: stack.filter (· ≠ key)) slots) :
    access (card W) stack key = key :: stack.filter (· ≠ key) :=
  take_of_length_le listing.length_le

omit [Fintype W] [DecidableEq W] in
lemma Listing.distinct_cons (listing : Listing younger held stack slots) :
    (key :: stack.filter (· ≠ key)).Nodup :=
  nodup_cons.mpr ⟨by simp, listing.distinct.filter _⟩

section

variable (listing : Listing younger held stack slots)

include listing

lemma Listing.hit (moved : Rejuvenates younger younger' held w) (found : held w = some key) :
    ∃ slots, Listing younger' (update held w (some key)) (access (card W) stack key) slots := by
  have inUse : w ∈ slots := (listing.full w).mpr (by simp [found])
  have injective : (slots.map held).Nodup := by
    rw [listing.keys]
    exact listing.distinct.map (Option.some_injective _)
  have same : slots.filter (· ≠ w) = slots.filter fun v => held v ≠ some key := by
    refine filter_congr fun v held_v => decide_eq_decide.mpr (not_congr ⟨?_, fun holds => ?_⟩)
    · rintro rfl
      exact found
    · exact inj_on_of_nodup_map injective held_v inUse (holds.trans found.symm)
  have keys : (slots.filter (· ≠ w)).map held = (stack.filter (· ≠ key)).map some := by
    calc (slots.filter (· ≠ w)).map held
        = (slots.map held).filter (· ≠ some key) := by rw [same, filter_map]; rfl
      _ = (stack.map some).filter (· ≠ some key) := by rw [listing.keys]
      _ = (stack.filter (· ≠ key)).map some := by
        rw [filter_map]
        congr 2
        funext k
        simp
  have placed := listing.place moved keys listing.distinct_cons
  exact ⟨_, placed.access_eq ▸ placed⟩

lemma Listing.fill (moved : Rejuvenates younger younger' held w) (empty : held w = none)
    (new : key ∉ stack) :
    ∃ slots, Listing younger' (update held w (some key)) (access (card W) stack key) slots := by
  have unused : w ∉ slots := fun inUse => (listing.full w).mp inUse empty
  have keys : (slots.filter (· ≠ w)).map held = (stack.filter (· ≠ key)).map some := by
    rw [filter_ne_of_notMem unused, filter_ne_of_notMem new, listing.keys]
  have placed := listing.place moved keys listing.distinct_cons
  exact ⟨_, placed.access_eq ▸ placed⟩

lemma Listing.replace (moved : Rejuvenates younger younger' held w) (busy : ∀ v, held v ≠ none)
    (oldest : ∀ v, ¬ younger w v) (new : key ∉ stack) :
    ∃ slots, Listing younger' (update held w (some key)) (access (card W) stack key) slots := by
  obtain ⟨before, after, split⟩ := append_of_mem ((listing.full w).mpr (busy w))
  obtain rfl : after = [] := by
    refine eq_nil_iff_forall_not_mem.mpr fun v behind => oldest v ?_
    have ordered := (pairwise_append.mp (split ▸ listing.ordered)).2.1
    exact (pairwise_cons.mp ordered).1 v behind
  have distinct := split ▸ listing.nodup
  have others : slots.filter (· ≠ w) = before := by
    have absent : w ∉ before := fun inside =>
      (nodup_append.mp distinct).2.2 w inside w (by simp) rfl
    rw [split, filter_append, filter_ne_of_notMem absent, filter_cons_of_neg (by simp),
      filter_nil, append_nil]
  have size : card W = before.length + 1 := by
    have all : slots.toFinset = Finset.univ := by
      ext v
      simp [listing.full v, busy v]
    rw [← Finset.card_univ, ← all, toFinset_card_of_nodup listing.nodup, split]
    simp
  have keys : before.map held = (stack.take before.length).map some := by
    rw [map_take, ← listing.keys, split, map_append, take_append_of_le_length (by simp)]
    simp
  rw [access, filter_ne_of_notMem new, size, take_succ_cons]
  refine ⟨_, listing.place moved (others.symm ▸ keys) (nodup_cons.mpr ⟨?_, ?_⟩)⟩
  · exact fun held => new (mem_of_mem_take held)
  · exact (take_sublist _ _).nodup listing.distinct

end

end Slots

end LruStack
