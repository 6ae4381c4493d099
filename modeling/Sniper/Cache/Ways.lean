import Mathlib.Data.List.FinRange
import Mathlib.Data.List.Induction
import Mathlib.Data.List.Pairwise

/-!
# Switching the ways of a module

The loops of `CacheCntlr::reconfigure` on one row of `isSubWayOn`: ways are
switched back on when their hit count is above BETA, and otherwise switched off
from the top while their hit count is below ALPHA.
-/

namespace Sniper

open List

/-- `W_min`, the number of ways that are never switched off. -/
def wMin : Nat := 2

/-- `ALPHA`: a way with fewer hits may be switched off. -/
def alphaHits : Nat := 5

/-- `BETA`: a way with more hits is switched back on. -/
def betaHits : Nat := 55

section Ways

variable {A : Nat}

/-- One iteration of the loop that switches ways on, with `didChangeHappen`. -/
def switchOnStep (hits : Fin A → Nat) (r : (Fin A → Bool) × Bool) (v : Fin A) :
    (Fin A → Bool) × Bool :=
  if wMin ≤ v.val ∧ r.1 v = false ∧ betaHits < hits v then
    (fun e => if e = v ∨ (2 ≤ e.val ∧ e.val ≤ v.val - 1) then true else r.1 e, true)
  else r

def switchOn (on : Fin A → Bool) (hits : Fin A → Nat) : (Fin A → Bool) × Bool :=
  (List.finRange A).foldl (switchOnStep hits) (on, false)

/-- The local variables of `reconfigure` for one module. -/
structure Switched (A : Nat) where
  on : Fin A → Bool
  didChangeHappen : Bool
  max : Nat
  min : Nat

def switchOff (hits : Fin A → Nat) : List (Fin A) → Switched A → Switched A
  | [], r => r
  | v :: vs, r =>
    if r.on v = true then
      if hits v < alphaHits then
        switchOff hits vs
          { on := Function.update r.on v false
            didChangeHappen := true
            max := if r.max < v.val then v.val else r.max
            min := if v.val < r.min then v.val else r.min }
      else r
    else switchOff hits vs r

/-- The ways `reconfigure` may switch off, in the order it visits them. -/
def offOrder (A : Nat) : List (Fin A) := (List.finRange A).reverse.filter (wMin ≤ ·.val)

/-- Both loops of `reconfigure` for one module. -/
def switchWays (on : Fin A → Bool) (hits : Fin A → Nat) : Switched A :=
  let r := switchOn on hits
  if r.2 then ⟨r.1, true, 0, A - 1⟩
  else switchOff hits (offOrder A) ⟨r.1, false, 0, A - 1⟩

/-- The ways from `max_way` down to `min_way`. -/
def wayRange (A maxWay minWay : Nat) : List (Fin A) :=
  (List.finRange A).reverse.filter fun v => minWay ≤ v.val && v.val ≤ maxWay

/-! ## Which ways change

The loops update the row in place and stop early, but what they do can be read
off the row and the hit counts as they were before. -/

def Hot (on : Fin A → Bool) (hits : Fin A → Nat) (v : Fin A) : Prop :=
  wMin ≤ v.val ∧ on v = false ∧ betaHits < hits v

def Rises (on : Fin A → Bool) (hits : Fin A → Nat) (e : Fin A) : Prop :=
  wMin ≤ e.val ∧ ∃ v, e ≤ v ∧ Hot on hits v

def Falls (on : Fin A → Bool) (hits : Fin A → Nat) (e : Fin A) : Prop :=
  (∀ v, ¬ Hot on hits v) ∧ wMin ≤ e.val ∧ on e = true ∧
    ∀ v, e ≤ v → on v = true → hits v < alphaHits

variable {on : Fin A → Bool} {hits : Fin A → Nat}

lemma foldl_switchOnStep (on : Fin A → Bool) (hits : Fin A → Nat) (l : List (Fin A))
    (sorted : l.Pairwise (· < ·)) :
    (∀ e, (l.foldl (switchOnStep hits) (on, false)).1 e = true ↔
      on e = true ∨ (wMin ≤ e.val ∧ ∃ v ∈ l, e ≤ v ∧ Hot on hits v)) ∧
    ((l.foldl (switchOnStep hits) (on, false)).2 = true ↔ ∃ v ∈ l, Hot on hits v) := by
  induction l using reverseRecOn with
  | nil => simp
  | append_singleton l v ih =>
    obtain ⟨sortedl, -, below⟩ := pairwise_append.mp sorted
    obtain ⟨ihOn, ihChange⟩ := ih sortedl
    rw [foldl_append, foldl_cons, foldl_nil]
    generalize l.foldl (switchOnStep hits) (on, false) = r at ihOn ihChange
    have untouched : r.1 v = on v := by
      rw [Bool.eq_iff_iff, ihOn]
      refine ⟨fun h => h.resolve_right ?_, .inl⟩
      rintro ⟨-, u, hu, hvu, -⟩
      have := below u hu v (by simp)
      omega
    have other : ∀ {Q : Fin A → Prop}, ¬ Q v → ((∃ u ∈ l ++ [v], Q u) ↔ ∃ u ∈ l, Q u) := by
      intro Q hQ
      simp [or_and_right, exists_or, hQ]
    by_cases hot : Hot on hits v
    · have step : switchOnStep hits r v =
          (fun e => if e = v ∨ (2 ≤ e.val ∧ e.val ≤ v.val - 1) then true else r.1 e, true) :=
        if_pos ⟨hot.1, untouched.trans hot.2.1, hot.2.2⟩
      rw [step]
      refine ⟨fun e => ?_, by simpa using Or.inr hot⟩
      have h2 : 2 ≤ v.val := hot.1
      by_cases he : e = v ∨ (2 ≤ e.val ∧ e.val ≤ v.val - 1)
      · have hle : e ≤ v := by
          rcases he with rfl | ⟨-, h⟩
          · exact le_rfl
          · exact Fin.le_def.mpr (by omega)
        have hmin : wMin ≤ e.val := by
          rcases he with rfl | ⟨h, -⟩
          · exact hot.1
          · exact h
        simp only [if_pos he, true_iff]
        exact .inr ⟨hmin, v, by simp, hle, hot⟩
      · have outside : wMin ≤ e.val → ¬ e ≤ v := by
          intro hmin hle
          have := Fin.le_def.mp hle
          have : 2 ≤ e.val := hmin
          by_cases hev : e = v
          · exact he (.inl hev)
          · have : e.val ≠ v.val := fun h => hev (Fin.ext h)
            exact he (.inr ⟨by omega, by omega⟩)
        simp only [if_neg he]
        rw [ihOn]
        refine or_congr_right (and_congr_right fun hmin => (other ?_).symm)
        exact fun h => outside hmin h.1
    · have step : switchOnStep hits r v = r :=
        if_neg fun h => hot ⟨h.1, untouched.symm.trans h.2.1, h.2.2⟩
      rw [step, other hot]
      refine ⟨fun e => ?_, ihChange⟩
      rw [ihOn, other fun h => hot h.2]

lemma switchOn_on (e : Fin A) : (switchOn on hits).1 e = true ↔ on e = true ∨ Rises on hits e := by
  have spec := (foldl_switchOnStep on hits (finRange A) (pairwise_lt_finRange A)).1 e
  simpa [switchOn, Rises] using spec

lemma switchOn_changed : (switchOn on hits).2 = true ↔ ∃ v, Hot on hits v := by
  have spec := (foldl_switchOnStep on hits (finRange A) (pairwise_lt_finRange A)).2
  simpa [switchOn] using spec

/-- The ways the loop that switches ways off takes out of `r` on its way through
`vs`: those that are on, with only little used ways before them. -/
def Taken (hits : Fin A → Nat) (r : Fin A → Bool) (vs : List (Fin A)) (e : Fin A) : Prop :=
  e ∈ vs ∧ r e = true ∧ ∀ u ∈ vs, e ≤ u → r u = true → hits u < alphaHits

section Taken

variable {r : Fin A → Bool} {v e : Fin A} {vs : List (Fin A)}

lemma taken_off (off : r v = false) : Taken hits r (v :: vs) e ↔ Taken hits r vs e := by
  constructor
  · rintro ⟨he, on, cold⟩
    have hev : e ≠ v := by rintro rfl; rw [off] at on; cases on
    exact ⟨(mem_cons.mp he).resolve_left hev, on, fun u hu => cold u (mem_cons_of_mem v hu)⟩
  · rintro ⟨he, on, cold⟩
    refine ⟨mem_cons_of_mem v he, on, fun u hu hle hon => ?_⟩
    rcases mem_cons.mp hu with rfl | hu
    · rw [off] at hon; cases hon
    · exact cold u hu hle hon

lemma taken_warm (below : ∀ u ∈ vs, u < v) (on : r v = true) (warm : ¬ hits v < alphaHits) :
    ¬ Taken hits r (v :: vs) e := by
  rintro ⟨he, -, cold⟩
  have hle : e ≤ v := by
    rcases mem_cons.mp he with rfl | he
    · exact le_rfl
    · exact (below e he).le
  exact warm (cold v (by simp) hle on)

lemma taken_cold (below : ∀ u ∈ vs, u < v) (on : r v = true) (cold : hits v < alphaHits) :
    Taken hits r (v :: vs) e ↔ e = v ∨ Taken hits (Function.update r v false) vs e := by
  have later : ∀ u ∈ vs, Function.update r v false u = r u := fun u hu =>
    Function.update_of_ne (below u hu).ne false r
  constructor
  · rintro ⟨he, hon, hcold⟩
    refine or_iff_not_imp_left.mpr fun hev => ?_
    have he := (mem_cons.mp he).resolve_left hev
    refine ⟨he, (later e he).trans hon, fun u hu hle hu' => ?_⟩
    exact hcold u (mem_cons_of_mem v hu) hle ((later u hu).symm.trans hu')
  · rintro (rfl | ⟨he, hon, hcold⟩)
    · refine ⟨by simp, on, fun u hu hle _ => ?_⟩
      rcases mem_cons.mp hu with rfl | hu
      · exact cold
      · exact absurd (below u hu) (not_lt.mpr hle)
    · refine ⟨mem_cons_of_mem v he, (later e he).symm.trans hon, fun u hu hle hu' => ?_⟩
      rcases mem_cons.mp hu with rfl | hu
      · exact cold
      · exact hcold u hu hle ((later u hu).trans hu')

end Taken

/-- What the loop that switches ways off has done to `r` after the ways `vs`. -/
structure SwitchesOff (hits : Fin A → Nat) (vs : List (Fin A)) (r r' : Switched A) : Prop where
  on : ∀ e, r'.on e = true ↔ r.on e = true ∧ ¬ Taken hits r.on vs e
  changed : r'.didChangeHappen = true ↔ r.didChangeHappen = true ∨ ∃ e, Taken hits r.on vs e
  range : ∀ e, Taken hits r.on vs e → r'.min ≤ e.val ∧ e.val ≤ r'.max
  min_le : r'.min ≤ r.min
  le_max : r.max ≤ r'.max
  least : r'.min = r.min ∨ ∃ e, Taken hits r.on vs e ∧ r'.min = e.val

/-- The loop goes down the ways and ends at the first one that is on and hit often enough. -/
lemma switchOff_switchesOff (hits : Fin A → Nat) (vs : List (Fin A))
    (sorted : vs.Pairwise (· > ·)) (r : Switched A) :
    SwitchesOff hits vs r (switchOff hits vs r) := by
  induction vs generalizing r with
  | nil => constructor <;> simp [switchOff, Taken]
  | cons v vs ih =>
    obtain ⟨below, sorted⟩ := pairwise_cons.mp sorted
    rw [switchOff]
    by_cases on : r.on v = true
    · rw [if_pos on]
      by_cases cold : hits v < alphaHits
      · rw [if_pos cold]
        -- way v goes off here and the rest of the loop starts from the new bounds
        have rest := ih sorted
          { on := Function.update r.on v false
            didChangeHappen := true
            max := if r.max < v.val then v.val else r.max
            min := if v.val < r.min then v.val else r.min }
        have taken := fun e => taken_cold (e := e) below on cold
        have newMin : (if v.val < r.min then v.val else r.min) ≤ v.val ∧
            (if v.val < r.min then v.val else r.min) ≤ r.min := by split <;> omega
        have newMax : v.val ≤ (if r.max < v.val then v.val else r.max) ∧
            r.max ≤ (if r.max < v.val then v.val else r.max) := by split <;> omega
        constructor
        · intro e
          rw [rest.on, taken]
          by_cases hev : e = v
          · simp [hev]
          · simp [hev]
        · rw [rest.changed]
          simp only [true_or, true_iff]
          exact .inr ⟨v, (taken v).mpr (.inl rfl)⟩
        · intro e he
          rcases (taken e).mp he with rfl | he
          · exact ⟨rest.min_le.trans newMin.1, newMax.1.trans rest.le_max⟩
          · exact rest.range e he
        · exact rest.min_le.trans newMin.2
        · exact newMax.2.trans rest.le_max
        · rcases rest.least with h | ⟨e, he, h⟩
          · by_cases hv : v.val < r.min
            · exact .inr ⟨v, (taken v).mpr (.inl rfl), h.trans (if_pos hv)⟩
            · exact .inl (h.trans (if_neg hv))
          · exact .inr ⟨e, (taken e).mpr (.inr he), h⟩
      · rw [if_neg cold]
        constructor <;> simp [taken_warm below on cold]
    · rw [if_neg on]
      have taken : ∀ e, Taken hits r.on (v :: vs) e ↔ Taken hits r.on vs e :=
        fun e => taken_off (by simpa using on)
      have rest := ih sorted r
      constructor
      · exact fun e => by rw [rest.on, taken]
      · simp only [rest.changed, taken]
      · exact fun e he => rest.range e ((taken e).mp he)
      · exact rest.min_le
      · exact rest.le_max
      · simpa only [taken] using rest.least

lemma offOrder_sorted (A : Nat) : (offOrder A).Pairwise (· > ·) :=
  (pairwise_reverse.mpr (pairwise_lt_finRange A)).filter _

lemma mem_offOrder {e : Fin A} : e ∈ offOrder A ↔ wMin ≤ e.val := by simp [offOrder]

/-! ## Both loops -/

variable (on hits)

lemma switchWays_hot (hot : ∃ v, Hot on hits v) :
    (∀ e, (switchWays on hits).on e = true ↔ on e = true ∨ Rises on hits e) ∧
      wayRange A (switchWays on hits).max (switchWays on hits).min = [] := by
  have result : switchWays on hits = ⟨(switchOn on hits).1, true, 0, A - 1⟩ := by
    simp [switchWays, switchOn_changed.mpr hot]
  rw [result]
  refine ⟨fun e => switchOn_on e, ?_⟩
  obtain ⟨v, h2, -⟩ := hot
  have h2 : 2 ≤ v.val := h2
  have hv := v.isLt
  rw [wayRange, filter_eq_nil_iff]
  intro e _
  simp only [Bool.and_eq_true, decide_eq_true_eq]
  omega

lemma switchWays_cold (cold : ∀ v, ¬ Hot on hits v) :
    (∀ e, (switchWays on hits).on e = true ↔ on e = true ∧ ¬ Falls on hits e) ∧
      ((switchWays on hits).didChangeHappen = true ↔ ∃ e, Falls on hits e) ∧
      (∀ e, Falls on hits e → e ∈ wayRange A (switchWays on hits).max (switchWays on hits).min) ∧
      ∀ v, (switchWays on hits).didChangeHappen = true →
        v ∈ wayRange A (switchWays on hits).max (switchWays on hits).min →
        (switchWays on hits).on v = false := by
  have unchanged : (switchOn on hits).2 = false := by
    rw [Bool.eq_false_iff, ne_eq, switchOn_changed]
    exact not_exists.mpr cold
  have row : (switchOn on hits).1 = on := by
    funext e
    rw [Bool.eq_iff_iff, switchOn_on]
    exact ⟨fun h => h.resolve_right fun ⟨_, v, _, hot⟩ => cold v hot, .inl⟩
  have result : switchWays on hits = switchOff hits (offOrder A) ⟨on, false, 0, A - 1⟩ := by
    simp [switchWays, unchanged, row]
  have taken : ∀ e, Taken hits on (offOrder A) e ↔ Falls on hits e := by
    intro e
    simp only [Taken, Falls, mem_offOrder]
    constructor
    · rintro ⟨hmin, hon, hcold⟩
      refine ⟨cold, hmin, hon, fun v hle => hcold v ?_ hle⟩
      exact hmin.trans (Fin.le_def.mp hle)
    · rintro ⟨-, hmin, hon, hcold⟩
      exact ⟨hmin, hon, fun v _ hle => hcold v hle⟩
  have off := switchOff_switchesOff hits (offOrder A) (offOrder_sorted A) ⟨on, false, 0, A - 1⟩
  rw [← result] at off
  obtain ⟨offOn, offChanged, offRange, offMin, -, offLeast⟩ := off
  simp only [taken] at offOn offChanged offRange offLeast
  refine ⟨offOn, by simpa using offChanged, ?_, ?_⟩
  · intro e he
    simpa [wayRange] using offRange e he
  · intro v changed hv
    obtain ⟨e, he⟩ : ∃ e, Falls on hits e := by simpa using offChanged.mp changed
    have inside : (switchWays on hits).min ≤ v.val ∧ v.val ≤ (switchWays on hits).max := by
      simpa [wayRange] using hv
    -- the lowest way taken lies at or below v, and all ways on above it fall too
    obtain ⟨f, hf, hfv⟩ : ∃ f, Falls on hits f ∧ f ≤ v := by
      rcases offLeast with h | ⟨f, hf, h⟩
      · refine ⟨e, he, Fin.le_def.mpr ?_⟩
        have := (offRange e he).1
        have := e.isLt
        omega
      · exact ⟨f, hf, Fin.le_def.mpr (by omega)⟩
    by_contra hon
    have hon : (switchWays on hits).on v = true := by simpa using hon
    obtain ⟨before, stays⟩ := (offOn v).mp hon
    refine stays ⟨cold, hf.2.1.trans (Fin.le_def.mp hfv), before, fun u hu => ?_⟩
    exact hf.2.2.2 u (hfv.trans hu)

variable {on hits}

lemma switchWays_on (e : Fin A) :
    (switchWays on hits).on e = true ↔ (on e = true ∧ ¬ Falls on hits e) ∨ Rises on hits e := by
  by_cases hot : ∃ v, Hot on hits v
  · have noFall : ¬ Falls on hits e := fun h => hot.elim fun v hv => h.1 v hv
    rw [(switchWays_hot on hits hot).1]
    simp [noFall]
  · have cold := not_exists.mp hot
    have noRise : ¬ Rises on hits e := fun ⟨_, v, _, hv⟩ => cold v hv
    rw [(switchWays_cold on hits cold).1]
    simp [noRise]

lemma Falls.visited {e : Fin A} (falls : Falls on hits e) :
    (switchWays on hits).didChangeHappen = true ∧
      e ∈ wayRange A (switchWays on hits).max (switchWays on hits).min := by
  obtain ⟨-, changed, range, -⟩ := switchWays_cold on hits falls.1
  exact ⟨changed.mpr ⟨e, falls⟩, range e falls⟩

lemma visited_off {v : Fin A} (changed : (switchWays on hits).didChangeHappen = true)
    (hv : v ∈ wayRange A (switchWays on hits).max (switchWays on hits).min) :
    (switchWays on hits).on v = false := by
  by_cases hot : ∃ v, Hot on hits v
  · rw [(switchWays_hot on hits hot).2] at hv
    cases hv
  · exact (switchWays_cold on hits (not_exists.mp hot)).2.2.2 v changed hv

lemma switchWays_low {e : Fin A} (low : e.val < wMin) (he : on e = true) :
    (switchWays on hits).on e = true :=
  (switchWays_on e).mpr (.inl ⟨he, fun falls => absurd falls.2.1 (Nat.not_le.mpr low)⟩)

lemma visited_falls {v : Fin A} (changed : (switchWays on hits).didChangeHappen = true)
    (hv : v ∈ wayRange A (switchWays on hits).max (switchWays on hits).min) (hon : on v = true) :
    Falls on hits v := by
  have off := visited_off changed hv
  by_contra stays
  rw [(switchWays_on v).mpr (.inl ⟨hon, stays⟩)] at off
  cases off

end Ways

end Sniper
