import Mathlib.Order.Lattice.Nat

/-!
# The ports of a Nehalem core

A uop belongs to a class: it is bound to one port, or it may take port 0 or 5, or port 0, 1 or 5.
Uops can be spread over the ports exactly when each port has room for the uops bound to it, ports 0
and 5 together for all that need one of them, and ports 0, 1 and 5 together for all that need one
of the three.

`IntervalContentionNehalem` counts the uops of the old window by class and stretches the critical
path to what the ports need at least.
-/

namespace Sniper.PerformanceModel.Nehalem

open Function Nat

/-- `uop_port_t`. -/
inductive UopPort where
  | port0
  | port1
  | port2
  | port34
  | port5
  | port05
  | port015
  deriving DecidableEq, Repr

inductive Resource where
  | port0
  | port1
  | port2
  | port34
  | port5
  deriving DecidableEq, Repr

def Resource.own : Resource → UopPort
  | port0 => .port0
  | port1 => .port1
  | port2 => .port2
  | port34 => .port34
  | port5 => .port5

def UopPort.Compatible : UopPort → Resource → Prop
  | .port05, r => r = .port0 ∨ r = .port5
  | .port015, r => r = .port0 ∨ r = .port1 ∨ r = .port5
  | port, r => port = r.own

/-- The uops can be given resources of theirs, as many to each as its capacity allows. -/
def Spreads (capacity : Resource → ℕ) (uops : List UopPort) : Prop :=
  ∃ resources, List.Forall₂ UopPort.Compatible uops resources ∧
    ∀ r, resources.count r ≤ capacity r

def uses015 (count : UopPort → ℕ) : ℕ :=
  count .port0 + count .port1 + count .port5 + count .port05 + count .port015

/-- The capacities suffice for the uops of each class and of the classes that share ports. -/
structure Fits (capacity : Resource → ℕ) (count : UopPort → ℕ) : Prop where
  own : ∀ r : Resource, count r.own ≤ capacity r
  shared05 : count .port0 + count .port5 + count .port05 ≤ capacity .port0 + capacity .port5
  shared015 : uses015 count ≤ capacity .port0 + capacity .port1 + capacity .port5

section Spreading

variable {capacity : Resource → ℕ} {port : UopPort} {uops : List UopPort}

lemma count_head (port class' : UopPort) (uops : List UopPort) :
    (port :: uops).count class' = uops.count class' + if port = class' then 1 else 0 := by
  simp [List.count_cons]

lemma fits_of_forall₂ {resources : List Resource}
    (given : List.Forall₂ UopPort.Compatible uops resources) :
    Fits (fun r => resources.count r) (fun port => uops.count port) := by
  induction given with
  | nil => exact ⟨fun _ => le_rfl, le_rfl, le_rfl⟩
  | @cons port r uops resources compatible _ ih =>
    have own := ih.own
    have shared05 := ih.shared05
    have shared015 := ih.shared015
    cases port <;> cases r <;> simp only [UopPort.Compatible, Resource.own, reduceCtorEq,
      or_false, false_or] at compatible
    all_goals
      refine ⟨fun r => ?_, ?_, ?_⟩
      · have this := own r
        cases r <;> simp [Resource.own] at this ⊢ <;> omega
      · simp at shared05 ⊢
        omega
      · simp [uses015] at shared015 ⊢
        omega

lemma Fits.place {r : Resource} (fits : Fits capacity fun class' => (port :: uops).count class')
    (room : uops.count r.own < capacity r) (compatible : port.Compatible r)
    (spare : port = .port015 → uops.count .port1 < capacity .port1 → r = .port1) :
    Fits (update capacity r (capacity r - 1)) fun class' => uops.count class' := by
  obtain ⟨own, shared05, shared015⟩ := fits
  have own0 := own .port0
  have own1 := own .port1
  have own5 := own .port5
  simp only [count_head] at own
  simp only [count_head, Resource.own, uses015] at own0 own1 own5 shared05 shared015
  refine ⟨fun other => ?_, ?_, ?_⟩
  · by_cases same : other = r
    · subst same
      rw [update_self]
      exact le_sub_one_of_lt room
    · rw [update_of_ne same]
      exact (le_add_right _ _).trans (own other)
  all_goals
    cases port <;> cases r <;> simp [UopPort.Compatible, Resource.own] at compatible room spare
    all_goals
      simp [uses015] at own0 own1 own5 shared05 shared015 ⊢
      omega

lemma Fits.head (fits : Fits capacity fun class' => (port :: uops).count class') :
    ∃ r, port.Compatible r ∧ uops.count r.own < capacity r ∧
      (port = .port015 → uops.count .port1 < capacity .port1 → r = .port1) := by
  obtain ⟨own, shared05, shared015⟩ := fits
  have own0 := own .port0
  have own1 := own .port1
  have own5 := own .port5
  simp only [count_head] at own
  simp only [count_head, Resource.own, uses015] at own0 own1 own5 shared05 shared015
  have bound : ∀ r : Resource, port = r.own → uops.count r.own < capacity r := by
    intro r same
    have this := own r
    rw [if_pos same] at this
    exact this
  cases port with
  | port0 => exact ⟨.port0, rfl, bound .port0 rfl, nofun⟩
  | port1 => exact ⟨.port1, rfl, bound .port1 rfl, nofun⟩
  | port2 => exact ⟨.port2, rfl, bound .port2 rfl, nofun⟩
  | port34 => exact ⟨.port34, rfl, bound .port34 rfl, nofun⟩
  | port5 => exact ⟨.port5, rfl, bound .port5 rfl, nofun⟩
  | port05 =>
    simp at own0 own1 own5 shared05
    by_cases free : uops.count .port0 < capacity .port0
    · exact ⟨.port0, .inl rfl, free, nofun⟩
    · exact ⟨.port5, .inr rfl, by simp only [Resource.own]; omega, nofun⟩
  | port015 =>
    simp at own0 own1 own5 shared05 shared015
    by_cases spare : uops.count .port1 < capacity .port1
    · exact ⟨.port1, .inr (.inl rfl), spare, fun _ _ => rfl⟩
    by_cases free : uops.count .port0 < capacity .port0
    · exact ⟨.port0, .inl rfl, free, fun _ room => absurd room spare⟩
    · refine ⟨.port5, .inr (.inr rfl), ?_, fun _ room => absurd room spare⟩
      simp only [Resource.own]
      omega

lemma spreads_of_fits (fits : Fits capacity fun class' => uops.count class') :
    Spreads capacity uops := by
  induction uops generalizing capacity with
  | nil => exact ⟨[], .nil, fun _ => zero_le _⟩
  | cons port uops ih =>
    obtain ⟨r, compatible, room, spare⟩ := fits.head
    obtain ⟨resources, given, loads⟩ := ih (fits.place room compatible spare)
    refine ⟨r :: resources, .cons compatible given, fun other => ?_⟩
    have load := loads other
    by_cases same : other = r
    · subst same
      rw [update_self] at load
      rw [List.count_cons_self]
      omega
    · rw [update_of_ne same] at load
      rwa [List.count_cons_of_ne (Ne.symm same)]

lemma spreads_iff : Spreads capacity uops ↔ Fits capacity fun class' => uops.count class' := by
  constructor
  · rintro ⟨resources, given, loads⟩
    have fits := fits_of_forall₂ given
    exact ⟨fun r => (fits.own r).trans (loads r),
      fits.shared05.trans (Nat.add_le_add (loads _) (loads _)),
      fits.shared015.trans (Nat.add_le_add (Nat.add_le_add (loads _) (loads _)) (loads _))⟩
  · exact spreads_of_fits

end Spreading

/-! ## The critical path of the interval model -/

/-- The classes in the order of `uop_port_t`. -/
def UopPort.all : List UopPort := [port0, port1, port2, port34, port5, port05, port015]

/-- The uops of the old window by class, and what each class was charged for. -/
structure IntervalContentionNehalem where
  countByPort : UopPort → ℕ
  cpContrByPort : UopPort → ℕ

namespace IntervalContentionNehalem

/-- The loop body of `getEffectiveCriticalPathLength`, which skips the shared ports. -/
def checkPort (count : UopPort → ℕ) (path : ℕ × Option UopPort) (port : UopPort) :
    ℕ × Option UopPort :=
  if port ≠ .port015 ∧ port ≠ .port05 ∧ path.1 < count port then (count port, some port) else path

/-- The test of `getEffectiveCriticalPathLength` for uops that share that many ports. -/
def checkShared (uses ports : ℕ) (port : UopPort) (path : ℕ × Option UopPort) :
    ℕ × Option UopPort :=
  if uses > ports * path.1 then ((uses + (ports - 1)) / ports, some port) else path

def effectivePath (count : UopPort → ℕ) (criticalPathLength : ℕ) : ℕ × Option UopPort :=
  let path := UopPort.all.foldl (checkPort count) (criticalPathLength, none)
  let path := checkShared (count .port0 + count .port5 + count .port05) 2 .port05 path
  checkShared (count .port0 + count .port1 + count .port5 + count .port015) 3 .port015 path

/-- `none` is the assertion that there is a reason for a longer path. -/
def getEffectiveCriticalPathLength (criticalPathLength : ℕ) (updateReason : Bool)
    (contention : IntervalContentionNehalem) : Option (ℕ × IntervalContentionNehalem) :=
  let path := effectivePath contention.countByPort criticalPathLength
  if updateReason = true ∧ path.1 > criticalPathLength then
    path.2.map fun reason => (path.1, { contention with
      cpContrByPort := update contention.cpContrByPort reason
        (contention.cpContrByPort reason +
          1000000 * (path.1 - criticalPathLength) / path.1) })
  else some (path.1, contention)

def counted (contention : IntervalContentionNehalem) : List UopPort :=
  UopPort.all.flatMap fun port => List.replicate (contention.countByPort port) port

/-- The uops that need port 0, 1 or 5 fit into the path, or into what a bound class, those that
need port 0 or 5, or those that need one of the three and are not content with 0 and 5 make of
it. -/
def Covered (count : UopPort → ℕ) (criticalPathLength : ℕ) : Prop :=
  uses015 count ≤ 3 * criticalPathLength ∨ (∃ r : Resource, uses015 count ≤ 3 * count r.own) ∨
    uses015 count ≤ 3 * ((count .port0 + count .port5 + count .port05 + 1) / 2) ∨
    uses015 count ≤ 3 * ((count .port0 + count .port1 + count .port5 + count .port015 + 2) / 3)

section EffectivePath

variable {count : UopPort → ℕ} {cp : ℕ} {path : ℕ × Option UopPort}

variable (contention : IntervalContentionNehalem)

lemma count_counted (port : UopPort) :
    contention.counted.count port = contention.countByPort port := by
  cases port <;> simp [counted, UopPort.all, List.count_replicate]

lemma checkPort_length (r : Resource) :
    (checkPort count path r.own).1 = max path.1 (count r.own) := by
  have bound : r.own ≠ .port015 ∧ r.own ≠ .port05 := by cases r <;> decide
  by_cases more : path.1 < count r.own
  · rw [checkPort, if_pos ⟨bound.1, bound.2, more⟩, max_eq_right more.le]
  · rw [checkPort, if_neg fun test => more test.2.2, max_eq_left (not_lt.mp more)]

lemma checkShared_length {uses ports : ℕ} {port : UopPort} (positive : 0 < ports) :
    (checkShared uses ports port path).1 = max path.1 ((uses + (ports - 1)) / ports) := by
  by_cases more : uses > ports * path.1
  · have less : path.1 ≤ (uses + (ports - 1)) / ports :=
      (le_div_iff_mul_le positive).mpr (by rw [mul_comm]; omega)
    rw [checkShared, if_pos more, max_eq_right less]
  · have less : (uses + (ports - 1)) / ports ≤ path.1 := by
      refine Nat.lt_succ_iff.mp ((Nat.div_lt_iff_lt_mul positive).mpr ?_)
      rw [Nat.succ_mul, Nat.mul_comm]
      omega
    rw [checkShared, if_neg more, max_eq_left less]

open Resource

lemma effectivePath_length (count : UopPort → ℕ) (cp : ℕ) :
    (effectivePath count cp).1 = max (max (max (max (max (max (max cp (count .port0))
      (count .port1)) (count .port2)) (count .port34)) (count .port5))
      ((count .port0 + count .port5 + count .port05 + 1) / 2))
      ((count .port0 + count .port1 + count .port5 + count .port015 + 2) / 3) := by
  have loop : UopPort.all.foldl (checkPort count) (cp, none) = checkPort count (checkPort count
      (checkPort count (checkPort count (checkPort count (cp, none) port0.own)
        port1.own) port2.own) port34.own) port5.own := rfl
  rw [effectivePath, checkShared_length (by decide), checkShared_length (by decide), loop]
  simp only [checkPort_length]
  rfl

lemma effectivePath_reason (longer : cp < (effectivePath count cp).1) :
    (effectivePath count cp).2.isSome := by
  have port : ∀ path port, (cp < path.1 → path.2.isSome) →
      cp < (checkPort count path port).1 → (checkPort count path port).2.isSome := by
    intro path port before
    rw [checkPort]
    split
    · exact fun _ => rfl
    · exact before
  have shared : ∀ path uses ports port, (cp < path.1 → path.2.isSome) →
      cp < (checkShared uses ports port path).1 → (checkShared uses ports port path).2.isSome := by
    intro path uses ports port before
    rw [checkShared]
    split
    · exact fun _ => rfl
    · exact before
  refine shared _ _ _ _ (shared _ _ _ _ ?_) longer
  refine List.foldlRecOn (motive := fun path : ℕ × Option UopPort => cp < path.1 → path.2.isSome)
    _ _ ?_ ?_
  · exact fun longer => absurd longer (lt_irrefl cp)
  · exact fun path before each _ => port path each before

lemma getEffectiveCriticalPathLength_some (cp : ℕ) (updateReason : Bool) :
    ∃ next, contention.getEffectiveCriticalPathLength cp updateReason =
      some ((effectivePath contention.countByPort cp).1, next) := by
  by_cases longer : updateReason = true ∧ (effectivePath contention.countByPort cp).1 > cp
  · obtain ⟨reason, found⟩ := Option.isSome_iff_exists.mp (effectivePath_reason longer.2)
    exact ⟨_, by rw [getEffectiveCriticalPathLength, if_pos longer, found]; rfl⟩
  · exact ⟨_, by rw [getEffectiveCriticalPathLength, if_neg longer]⟩

lemma fits_const_iff {L : ℕ} : cp ≤ L ∧ Fits (fun _ => L) count ↔ (effectivePath count cp).1 ≤ L ∧
    uses015 count ≤ 3 * L := by
  rw [effectivePath_length]
  constructor
  · rintro ⟨path, own, shared05, shared015⟩
    rw [uses015] at shared015 ⊢
    have bounds := And.intro (own .port0) <| And.intro (own .port1) <| And.intro (own .port2) <|
      And.intro (own .port34) (own .port5)
    simp only [Resource.own] at bounds
    omega
  · rintro ⟨length, uses⟩
    refine ⟨by omega, fun r => ?_, by omega, by omega⟩
    cases r <;> simp only [Resource.own] <;> omega

lemma covered_iff : Covered count cp ↔ uses015 count ≤ 3 * (effectivePath count cp).1 := by
  have own : (∃ r : Resource, uses015 count ≤ 3 * count r.own) ↔
      uses015 count ≤ 3 * count .port0 ∨ uses015 count ≤ 3 * count .port1 ∨
        uses015 count ≤ 3 * count .port2 ∨ uses015 count ≤ 3 * count .port34 ∨
        uses015 count ≤ 3 * count .port5 := by
    constructor
    · rintro ⟨r, below⟩
      cases r <;> simp only [Resource.own] at below <;> omega
    · rintro (below | below | below | below | below)
      · exact ⟨.port0, below⟩
      · exact ⟨.port1, below⟩
      · exact ⟨.port2, below⟩
      · exact ⟨.port34, below⟩
      · exact ⟨.port5, below⟩
  simp only [Covered, own, effectivePath_length, ← Nat.mul_max_mul_left, le_max_iff, or_assoc]

/-- The effective length is the least one that all counted uops can be spread over, exactly when
the uops of ports 0, 1 and 5 leave no more to place than the code's bounds cover. -/
theorem effectiveLength_least_iff (cp : ℕ) (updateReason : Bool) : (∃ length next,
        contention.getEffectiveCriticalPathLength cp updateReason = some (length, next) ∧
        IsLeast { L | cp ≤ L ∧ Spreads (fun _ => L) contention.counted } length) ↔
      Covered contention.countByPort cp := by
  obtain ⟨next, returned⟩ := getEffectiveCriticalPathLength_some contention cp updateReason
  have lengths : ∀ L, (cp ≤ L ∧ Spreads (fun _ => L) contention.counted) ↔
      (effectivePath contention.countByPort cp).1 ≤ L ∧ uses015 contention.countByPort ≤ 3 * L := by
    intro L
    rw [spreads_iff, funext (count_counted contention), fits_const_iff]
  rw [covered_iff, returned]
  constructor
  · rintro ⟨length, next', same, least⟩
    cases same
    exact ((lengths _).mp least.1).2
  · intro uses
    exact ⟨_, next, rfl, (lengths _).mpr ⟨le_rfl, uses⟩, fun L spread => ((lengths L).mp spread).1⟩

/-- Two uops for port 0 or 5 and three for port 0, 1 or 5 do not fit into one cycle. -/
theorem fiveUops_oneCycle : let contention : IntervalContentionNehalem :=
      ⟨fun port => if port = .port05 then 2 else if port = .port015 then 3 else 0, fun _ => 0⟩
    (contention.getEffectiveCriticalPathLength 1 true).map Prod.fst = some 1 ∧
      ¬ Spreads (fun _ => 1) contention.counted := by
  refine ⟨by decide, ?_⟩
  rw [spreads_iff]
  exact fun fits => absurd fits.shared015 (by decide)

end EffectivePath

end IntervalContentionNehalem

end Sniper.PerformanceModel.Nehalem
