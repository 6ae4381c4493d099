import Mathlib.Data.Int.ModEq
import Mathlib.Order.Lattice.Nat

/-!
# The branch resolution latency

`calculateBranchResolutionLatency` looks for the longest chain of dependencies in the old window
that leads to the uop to be dispatched. It goes from the youngest uop of the old window to the
oldest one and hands on to the producers of a uop how long the chain behind them is. Zero stands for
a uop that is not in a chain, so that a direct producer without a latency is passed over, and so are
the uops that it depends on.
-/

namespace Sniper.PerformanceModel.Resolution

open Function Nat Int List

structure DynamicMicroOp where
  sequenceNumber : ℕ
  execLatency : ℕ
  dependencies : List ℕ

/-- `windowIndex`, with the remainder of the source. -/
def windowIndex (size : ℕ) (index : ℤ) : ℕ := ((index.tmod size + size).tmod size).toNat

/-- The ring of `Windows`, around the uop to be dispatched. -/
structure Windows where
  /-- `m_double_window_size`. -/
  size : ℕ
  /-- `m_window_head__old_window_tail`. -/
  head : ℕ
  /-- `m_old_window_length`. -/
  oldLength : ℕ
  /-- `m_double_window`. -/
  entry : ℕ → DynamicMicroOp
  inside : head < size
  /-- The uops of the old window have the numbers before that of the uop to be dispatched. -/
  consecutive : ∀ age ≤ oldLength, (entry (windowIndex size (head - age))).sequenceNumber + age =
    (entry head).sequenceNumber
  earlier : ∀ age ≤ oldLength, ∀ dep ∈ (entry (windowIndex size (head - age))).dependencies,
    dep < (entry (windowIndex size (head - age))).sequenceNumber

namespace Windows

variable (w : Windows)

def place (age : ℕ) : ℕ := windowIndex w.size (w.head - age)

def sequenceNumber (index : ℕ) : ℕ := (w.entry index).sequenceNumber

def latency (index : ℕ) : ℕ := (w.entry index).execLatency

def dependencies (index : ℕ) : List ℕ := (w.entry index).dependencies

def decrementIndex (index : ℕ) : ℕ := (index + w.size - 1) % w.size

/-- `oldWindowContains`. The head of the old window is its length behind its tail. -/
def oldWindowContains (number : ℕ) : Bool :=
  decide (number ≥ w.sequenceNumber (w.place w.oldLength)) &&
    decide (number ≤ w.sequenceNumber (w.decrementIndex w.head))

/-- `getInstruction`: the index of the uop with the number. If it is not there the program ends. -/
def getInstruction (number : ℕ) : Option ℕ :=
  let distance : ℤ := w.sequenceNumber w.head - number
  let index := windowIndex w.size (w.head - distance)
  if w.sequenceNumber index = number then some index else none

def mark (value : (ℕ → ℕ) → ℕ → ℕ) (dependencies : List ℕ) (map : ℕ → ℕ) : Option (ℕ → ℕ) :=
  dependencies.foldlM (fun map dep =>
    if w.oldWindowContains dep = true then
      (w.getInstruction dep).map fun producer =>
        Function.update map producer (value map producer)
    else some map) map

def visit (i : ℕ) (map : ℕ → ℕ) (best : ℕ) : Option ((ℕ → ℕ) × ℕ) :=
  if map i ≠ 0 then
    (w.mark (fun map producer =>
        max ((w.latency producer + map i) % 2 ^ 32) (map producer))
      (w.dependencies i) map).map fun map => (Function.update map i 0, max best (map i))
  else some (map, best)

def walk : ℕ → ℕ → (ℕ → ℕ) → ℕ → Option ((ℕ → ℕ) × ℕ)
  | 0, _, map, best => some (map, best)
  | n + 1, i, map, best => (w.visit i map best).bind fun next =>
      walk n (windowIndex w.size (i - 1)) next.1 next.2

/-- `calculateBranchResolutionLatency`, with `m_exec_time_map` before and after. -/
def calculateBranchResolutionLatency (map : ℕ → ℕ) : Option (ℤ × (ℕ → ℕ)) :=
  (w.mark (fun _ producer => w.latency producer) (w.dependencies w.head) map).bind fun map =>
      (w.walk w.oldLength (windowIndex w.size (w.head - 1)) map 0).map
        fun result => ((result.2 : ℤ).bmod (2 ^ 32), result.1)

/-! ## Chains -/

/-- The latency of the uop of that age. -/
def cost (age : ℕ) : ℕ := w.latency (w.place age)

def Names (number age : ℕ) : Prop :=
  0 < age ∧ age ≤ w.oldLength ∧ number + age = w.sequenceNumber w.head

def Named (dependencies : List ℕ) (age : ℕ) : Prop := ∃ dep ∈ dependencies, w.Names dep age

def Feeds (producer age : ℕ) : Prop := w.Named (w.dependencies (w.place age)) producer

/-- A chain of dependencies in the old window begins at the uop of that age and ends at a direct
producer of the uop to be dispatched. The latencies on it have the sum. -/
inductive Chain (last : ℕ → Prop) : ℕ → ℕ → Prop where
  | direct {age : ℕ} (feeds : w.Feeds age 0) (ends : last age) : Chain last age (w.cost age)
  | further {age producer sum : ℕ} (chain : Chain last age sum) (feeds : w.Feeds producer age) :
      Chain last producer (w.cost producer + sum)

/-- The direct producer has a latency. -/
def Timed (age : ℕ) : Prop := 0 < w.cost age

/-- The longest of all chains, or zero. -/
def Longest (sum : ℕ) : Prop :=
  (∀ age sum', w.Chain (fun _ => True) age sum' → sum' ≤ sum) ∧
    (sum = 0 ∨ ∃ age, w.Chain (fun _ => True) age sum)

end Windows

def Best (P : ℕ → Prop) (m : ℕ) : Prop := (∀ v, P v → v ≤ m) ∧ (m = 0 ∨ P m)

variable {P Q : ℕ → Prop} {m : ℕ}

lemma Best.congr (best : Best P m) (same : ∀ v, Q v ↔ P v) : Best Q m := by
  rw [funext fun v => propext (same v)]
  exact best

lemma Best.max {k : ℕ} (first : Best P m) (second : Best Q k) :
    Best (fun v => P v ∨ Q v) (max m k) := by
  refine ⟨fun v here => ?_, ?_⟩
  · rcases here with here | here
    · exact (first.1 v here).trans (le_max_left _ _)
    · exact (second.1 v here).trans (le_max_right _ _)
  · rcases max_choice m k with same | same <;> rw [same]
    · exact first.2.imp_right Or.inl
    · exact second.2.imp_right Or.inr

namespace Windows

section Places

variable {w : Windows} {age producer sum : ℕ} {last : ℕ → Prop}

lemma windowIndex_eq {size : ℕ} (positive : 0 < size) (index : ℤ) :
    (windowIndex size index : ℤ) = index % size := by
  have positive : (0 : ℤ) < size := Int.natCast_pos.mpr positive
  have above := lt_tmod_of_pos index positive
  have nonneg : 0 ≤ index.tmod size + size := by omega
  rw [windowIndex, tmod_eq_emod_of_nonneg nonneg, add_emod_right, tmod_def,
    sub_mul_emod_self_left, toNat_of_nonneg (emod_nonneg _ positive.ne')]

lemma place_eq (w : Windows) (age : ℕ) : (w.place age : ℤ) = (w.head - age) % w.size :=
  windowIndex_eq (zero_lt_of_lt w.inside) _

lemma windowIndex_place (w : Windows) (age : ℕ) :
    windowIndex w.size (w.place age - 1) = w.place (age + 1) := by
  refine Int.natCast_inj.mp ?_
  rw [windowIndex_eq (zero_lt_of_lt w.inside), place_eq, place_eq, emod_sub_emod]
  congr 1
  omega

lemma place_zero (w : Windows) : w.place 0 = w.head := by
  have inside := w.inside
  refine Int.natCast_inj.mp ?_
  rw [place_eq, emod_eq_of_lt (by omega) (by omega)]
  omega

lemma decrementIndex_head (w : Windows) : w.decrementIndex w.head = w.place 1 := by
  have inside := w.inside
  have around : ((w.head + w.size - 1 : ℕ) : ℤ) = w.head - (1 : ℕ) + w.size := by omega
  refine Int.natCast_inj.mp ?_
  rw [place_eq, decrementIndex, natCast_emod, around, add_emod_right]

lemma number_place (w : Windows) (inside : age ≤ w.oldLength) :
    w.sequenceNumber (w.place age) + age = w.sequenceNumber w.head :=
  w.consecutive age inside

lemma place_injective {other : ℕ} (inside : age ≤ w.oldLength)
    (inside' : other ≤ w.oldLength) (same : w.place age = w.place other) : age = other := by
  have number := number_place w inside
  have number' := number_place w inside'
  rw [same] at number
  omega

variable {number : ℕ}

lemma oldWindowContains_iff (earlier : number < w.sequenceNumber w.head) :
    w.oldWindowContains number = true ↔ ∃ age, w.Names number age := by
  have lowest := number_place w le_rfl
  simp only [oldWindowContains, decrementIndex_head, Bool.and_eq_true, decide_eq_true_eq, Names]
  constructor
  · rintro ⟨above, -⟩
    exact ⟨w.sequenceNumber w.head - number, by omega⟩
  · rintro ⟨age, positive, inside, same⟩
    have highest := number_place w (show 1 ≤ w.oldLength by omega)
    omega

lemma getInstruction_eq (names : w.Names number age) :
    w.getInstruction number = some (w.place age) := by
  obtain ⟨-, inside, same⟩ := names
  have distance : (w.sequenceNumber w.head : ℤ) - number = age := by omega
  have found := number_place w inside
  rw [getInstruction, distance]
  exact if_pos (by rw [← place]; omega)

lemma Named.inside {dependencies : List ℕ} (named : w.Named dependencies age) :
    0 < age ∧ age ≤ w.oldLength := by
  obtain ⟨dep, -, positive, inside, -⟩ := named
  exact ⟨positive, inside⟩

lemma dep_add_lt {dep : ℕ} (inside : age ≤ w.oldLength)
    (mem : dep ∈ w.dependencies (w.place age)) : dep + age < w.sequenceNumber w.head := by
  have before : dep < w.sequenceNumber (w.place age) := w.earlier age inside dep mem
  have own := number_place w inside
  omega

lemma Feeds.earlier (feeds : w.Feeds producer age) (inside : age ≤ w.oldLength) :
    age < producer := by
  obtain ⟨dep, mem, -, -, number⟩ := feeds
  have before := dep_add_lt inside mem
  omega

lemma Chain.inside (chain : w.Chain last age sum) : 0 < age ∧ age ≤ w.oldLength := by
  cases chain with
  | direct feeds => exact feeds.inside
  | further chain feeds => exact feeds.inside

lemma Chain.positive (chain : w.Chain w.Timed age sum) : 0 < sum := by
  induction chain with
  | direct feeds ends => exact ends
  | further chain feeds ih => exact Nat.add_pos_right _ ih

lemma not_chain (never : ∀ age, ¬ last age) : ¬ w.Chain last age sum := by
  intro chain
  induction chain with
  | direct feeds ends => exact never _ ends
  | further chain feeds ih => exact ih

lemma Chain.mono (chain : w.Chain last age sum) : w.Chain (fun _ => True) age sum := by
  induction chain with
  | direct feeds ends => exact .direct feeds trivial
  | further chain feeds ih => exact .further ih feeds

lemma Chain.timed_or_not (chain : w.Chain last age sum) :
    w.Chain w.Timed age sum ∨ w.Chain (fun last => ¬ w.Timed last) age sum := by
  induction chain with
  | @direct age feeds _ => exact (em (w.Timed age)).imp (.direct feeds) (.direct feeds)
  | further chain feeds ih => exact ih.imp (.further · feeds) (.further · feeds)

lemma Chain.sum_le {c : ℕ} (bound : ∀ index, w.latency index ≤ c)
    (chain : w.Chain last age sum) : sum ≤ c * age := by
  induction chain with
  | direct feeds _ => exact (bound _).trans (Nat.le_mul_of_pos_right c feeds.inside.1)
  | @further age producer sum chain feeds ih =>
    have later := feeds.earlier chain.inside.2
    calc w.cost producer + sum ≤ c + c * age := Nat.add_le_add (bound _) ih
      _ = c * (age + 1) := by rw [mul_succ, add_comm]
      _ ≤ c * producer := mul_le_mul_left c later

lemma chain_iff : w.Chain last producer sum ↔
    (w.Feeds producer 0 ∧ last producer ∧ sum = w.cost producer) ∨
      ∃ age < producer, ∃ rest, w.Chain last age rest ∧ w.Feeds producer age ∧
        sum = w.cost producer + rest := by
  constructor
  · intro chain
    cases chain with
    | direct feeds ends => exact .inl ⟨feeds, ends, rfl⟩
    | further chain feeds => exact .inr ⟨_, feeds.earlier chain.inside.2, _, chain, feeds, rfl⟩
  · rintro (⟨feeds, ends, rfl⟩ | ⟨age, -, rest, chain, feeds, rfl⟩)
    · exact .direct feeds ends
    · exact .further chain feeds

end Places

/-! ## Marking the producers -/

def Marked (w : Windows) (dependencies : List ℕ) (x : ℕ) : Prop :=
  ∃ age, w.Named dependencies age ∧ w.place age = x

lemma mark_spec (w : Windows) (value : (ℕ → ℕ) → ℕ → ℕ) (g : ℕ → ℕ → ℕ) (i : ℕ)
    {dependencies : List ℕ} (map : ℕ → ℕ)
    (agree : ∀ map' x, map' i = map i → value map' x = g x (map' x))
    (again : ∀ x v, g x (g x v) = g x v)
    (below : ∀ dep ∈ dependencies, dep < w.sequenceNumber w.head)
    (apart : ¬ w.Marked dependencies i) :
    ∃ map', w.mark value dependencies map = some map' ∧
      ∀ x, (w.Marked dependencies x → map' x = g x (map x)) ∧
        (¬ w.Marked dependencies x → map' x = map x) := by
  induction dependencies generalizing map with
  | nil =>
    refine ⟨map, rfl, fun x => ⟨?_, fun _ => rfl⟩⟩
    rintro ⟨age, ⟨dep, ⟨⟩, -⟩, -⟩
  | cons dep deps ih =>
    have widen {x : ℕ} : w.Marked deps x → w.Marked (dep :: deps) x :=
      Exists.imp fun age found => ⟨exists_mem_cons_of_exists found.1, found.2⟩
    have earlier := below dep mem_cons_self
    have below' := fun other mem => below other (mem_cons_of_mem dep mem)
    rw [mark, foldlM_cons]
    by_cases contained : w.oldWindowContains dep = true
    · obtain ⟨age, names⟩ := (oldWindowContains_iff earlier).mp contained
      have here : w.Marked (dep :: deps) (w.place age) :=
        ⟨age, ⟨dep, mem_cons_self, names⟩, rfl⟩
      rw [if_pos contained, getInstruction_eq names, Option.map_some, agree map _ rfl]
      have still := update_of_ne (fun same : i = _ => apart (same ▸ here))
        (g (w.place age) (map (w.place age))) map
      obtain ⟨map', marked, set⟩ := ih (update map (w.place age) _)
        (fun map' x same => agree map' x (same.trans still)) below' (mt widen apart)
      refine ⟨map', marked, fun x => ⟨fun there => ?_, fun missing => ?_⟩⟩
      · by_cases later : w.Marked deps x
        · rw [(set x).1 later]
          by_cases first : x = w.place age
          · rw [first, update_self, again]
          · rw [update_of_ne first]
        · obtain ⟨age', named, rfl⟩ := there
          have first := ((exists_mem_cons_iff ..).mp named).resolve_right
            fun named => later ⟨age', named, rfl⟩
          obtain rfl : age' = age := add_left_cancel (first.2.2.trans names.2.2.symm)
          rw [(set _).2 later, update_self]
      · rw [(set x).2 (mt widen missing), update_of_ne]
        rintro rfl
        exact missing here
    · rw [if_neg contained]
      obtain ⟨map', marked, set⟩ := ih map agree below' (mt widen apart)
      refine ⟨map', marked, fun x => ⟨?_, fun missing => (set x).2 (mt widen missing)⟩⟩
      rintro ⟨age, named, rfl⟩
      refine (set _).1 ⟨age, ?_, rfl⟩
      refine ((exists_mem_cons_iff ..).mp named).resolve_left fun names => contained ?_
      exact (oldWindowContains_iff earlier).mpr ⟨age, names⟩

/-! ## The walk -/

def Further (w : Windows) (age producer sum : ℕ) : Prop :=
  ∃ rest, w.Chain w.Timed age rest ∧ w.Feeds producer age ∧ sum = w.cost producer + rest

def Reaches (w : Windows) (age producer sum : ℕ) : Prop :=
  (w.Feeds producer 0 ∧ w.Timed producer ∧ sum = w.cost producer) ∨
    ∃ age' < age + 1, w.Further age' producer sum

structure Progress (w : Windows) (age : ℕ) (map : ℕ → ℕ) (best : ℕ) : Prop where
  marked : ∀ producer, age < producer → producer ≤ w.oldLength →
    Best (w.Reaches age producer) (map (w.place producer))
  clean : ∀ x, map x ≠ 0 → ∃ later, age < later ∧ later ≤ w.oldLength ∧ w.place later = x
  best : Best (fun sum => ∃ age' < age + 1, w.Chain w.Timed age' sum) best

section Walk

variable {w : Windows} {age best : ℕ} {map : ℕ → ℕ}

lemma not_marked_place (inside : age ≤ w.oldLength) :
    ¬ w.Marked (w.dependencies (w.place age)) (w.place age) := by
  rintro ⟨producer, feeds, same⟩
  have later := Feeds.earlier feeds inside
  have equal := place_injective feeds.inside.2 inside same
  omega

lemma marked_place {producer : ℕ} (inside : producer ≤ w.oldLength) :
    w.Marked (w.dependencies (w.place age)) (w.place producer) ↔ w.Feeds producer age := by
  constructor
  · rintro ⟨other, feeds, same⟩
    rwa [← place_injective feeds.inside.2 inside same]
  · exact fun feeds => ⟨producer, feeds, rfl⟩

lemma reaches_zero {producer sum : ℕ} : w.Reaches 0 producer sum ↔
    w.Feeds producer 0 ∧ w.Timed producer ∧ sum = w.cost producer := by
  refine or_iff_left ?_
  rintro ⟨age, youngest, rest, chain, -⟩
  have positive := chain.inside.1
  omega

lemma reaches_succ {producer sum : ℕ} : w.Reaches (age + 1) producer sum ↔
    w.Reaches age producer sum ∨ w.Further (age + 1) producer sum := by
  rw [Reaches, exists_lt_succ_right, ← or_assoc]
  rfl

lemma progress_start : ∃ map', w.mark (fun _ producer => w.latency producer)
    (w.dependencies w.head) (fun _ => 0) = some map' ∧ w.Progress 0 map' 0 := by
  obtain ⟨map', marked, set⟩ := mark_spec w (fun _ x => w.latency x) (fun x _ => w.latency x)
    (w.place 0) (fun _ => 0) (fun _ _ _ => rfl) (fun _ _ => rfl)
    (fun _ => dep_add_lt (zero_le _)) (not_marked_place (zero_le _))
  rw [← place_zero]
  refine ⟨map', marked, fun producer _ inside => ?_, fun x nonzero => ?_, ?_, .inl rfl⟩
  · refine Best.congr ?_ fun _ => reaches_zero
    by_cases feeds : w.Feeds producer 0
    · rw [(set _).1 ((marked_place inside).mpr feeds)]
      refine ⟨fun sum here => here.2.2.le, ?_⟩
      exact (eq_zero_or_pos _).imp_right fun timed => ⟨feeds, timed, rfl⟩
    · rw [(set _).2 (mt (marked_place inside).mp feeds)]
      exact ⟨fun sum here => absurd here.1 feeds, .inl rfl⟩
  · by_contra missing
    refine nonzero ((set x).2 ?_)
    rintro ⟨age, feeds, same⟩
    exact missing ⟨age, feeds.inside.1, feeds.inside.2, same⟩
  · rintro sum ⟨age, youngest, chain⟩
    have positive := chain.inside.1
    omega

lemma best_further {producer sum : ℕ} (own : Best (w.Chain w.Timed age) sum)
    (nonzero : sum ≠ 0) (feeds : w.Feeds producer age) :
    Best (w.Further age producer) (w.cost producer + sum) := by
  refine ⟨?_, .inr ⟨sum, own.2.resolve_left nonzero, feeds, rfl⟩⟩
  rintro _ ⟨rest, chain, -, rfl⟩
  exact Nat.add_le_add_left (own.1 rest chain) _

lemma Progress.own (progress : w.Progress age map best) (inside : age + 1 ≤ w.oldLength) :
    Best (w.Chain w.Timed (age + 1)) (map (w.place (age + 1))) :=
  (progress.marked _ (lt_succ_self _) inside).congr fun _ => chain_iff

lemma Progress.chains (progress : w.Progress age map best) (inside : age + 1 ≤ w.oldLength) :
    Best (fun sum => ∃ age' < age + 2, w.Chain w.Timed age' sum)
      (max best (map (w.place (age + 1)))) :=
  (progress.best.max (progress.own inside)).congr fun _ => exists_lt_succ_right

lemma Progress.skip (progress : w.Progress age map best) (inside : age + 1 ≤ w.oldLength)
    (zero : map (w.place (age + 1)) = 0) : w.Progress (age + 1) map best := by
  have own := progress.own inside
  have chains := progress.chains inside
  rw [zero] at own
  rw [zero, Nat.max_zero] at chains
  refine ⟨fun producer later within => ?_, fun x nonzero => ?_, chains⟩
  · refine (progress.marked producer (by omega) within).congr fun sum => ?_
    rw [reaches_succ, or_iff_left]
    rintro ⟨rest, chain, -⟩
    exact absurd (own.1 rest chain) (not_le.mpr chain.positive)
  · obtain ⟨later, after, within, rfl⟩ := progress.clean x nonzero
    refine ⟨later, lt_of_le_of_ne after ?_, within, rfl⟩
    rintro rfl
    exact nonzero zero

section Fits

variable (fits : ∀ age sum, w.Chain (fun _ => True) age sum → sum < 2 ^ 31)

include fits

lemma Progress.visit (progress : w.Progress age map best) (inside : age + 1 ≤ w.oldLength) :
    ∃ next, w.visit (w.place (age + 1)) map best = some next ∧
      w.Progress (age + 1) next.1 next.2 := by
  rw [Windows.visit]
  by_cases zero : map (w.place (age + 1)) = 0
  · exact ⟨_, if_neg (not_not.mpr zero), progress.skip inside zero⟩
  have own := progress.own inside
  obtain ⟨map', marked, set⟩ := mark_spec w
    (fun map' x => max ((w.latency x + map' (w.place (age + 1))) % 2 ^ 32) (map' x))
    (fun x v => max ((w.latency x + map (w.place (age + 1))) % 2 ^ 32) v)
    (w.place (age + 1)) map (fun map' x same => by rw [same])
    (fun x v => max_eq_right (le_max_left _ _))
    (fun _ mem => lt_of_add_right_lt (dep_add_lt inside mem)) (not_marked_place inside)
  rw [if_pos zero, marked, Option.map_some, (set _).2 (not_marked_place inside)]
  refine ⟨_, rfl, fun producer later within => ?_, fun x nonzero => ?_, progress.chains inside⟩
  · have other : w.place producer ≠ w.place (age + 1) := fun same =>
      absurd (place_injective within inside same) (by omega)
    have before := progress.marked producer (by omega) within
    dsimp only
    rw [update_of_ne other]
    by_cases feeds : w.Feeds producer (age + 1)
    · have small := fits _ _ (Chain.further (own.2.resolve_left zero) feeds).mono
      rw [(set _).1 ((marked_place within).mpr feeds), ← cost, mod_eq_of_lt (by omega)]
      refine ((best_further own zero feeds).max before).congr fun sum => ?_
      rw [reaches_succ, or_comm]
    · rw [(set _).2 (mt (marked_place within).mp feeds)]
      refine before.congr fun sum => ?_
      rw [reaches_succ, or_iff_left fun further => feeds further.choose_spec.2.1]
  · have other : x ≠ w.place (age + 1) := by
      rintro rfl
      exact nonzero (update_self ..)
    dsimp only at nonzero
    rw [update_of_ne other] at nonzero
    by_cases there : w.Marked (w.dependencies (w.place (age + 1))) x
    · obtain ⟨later, feeds, same⟩ := there
      exact ⟨later, Feeds.earlier feeds inside, feeds.inside.2, same⟩
    · rw [(set x).2 there] at nonzero
      obtain ⟨later, after, within, rfl⟩ := progress.clean x nonzero
      exact ⟨later, lt_of_le_of_ne after fun same => other (by rw [same]), within, rfl⟩

lemma Progress.walk (n : ℕ) (progress : w.Progress age map best) (whole : age + n = w.oldLength) :
    ∃ next, w.walk n (w.place (age + 1)) map best = some next ∧
      w.Progress w.oldLength next.1 next.2 := by
  induction n generalizing age map best with
  | zero => exact ⟨(map, best), rfl, whole ▸ progress⟩
  | succ n ih =>
    obtain ⟨next, visited, further⟩ := progress.visit fits (by omega)
    rw [Windows.walk, visited, Option.bind_some, windowIndex_place]
    exact ih further (by omega)

lemma calculate_eq :
    ∃ best : ℕ, w.calculateBranchResolutionLatency (fun _ => 0) = some (↑best, fun _ => 0) ∧
      Best (fun sum => ∃ age, w.Chain w.Timed age sum) best := by
  obtain ⟨map, marked, start⟩ := @progress_start w
  obtain ⟨next, walked, progress⟩ := start.walk fits w.oldLength (zero_add _)
  have best : Best (fun sum => ∃ age, w.Chain w.Timed age sum) next.2 := by
    refine progress.best.congr fun sum => exists_congr fun age => ?_
    exact ⟨fun chain => ⟨lt_succ_of_le chain.inside.2, chain⟩, And.right⟩
  have clean : next.1 = fun _ => 0 := by
    funext x
    by_contra nonzero
    obtain ⟨later, after, within, -⟩ := progress.clean x nonzero
    omega
  have small : next.2 < 2 ^ 31 := by
    rcases best.2 with zero | ⟨age, chain⟩
    · omega
    · exact fits age _ chain.mono
  refine ⟨next.2, ?_, best⟩
  have first : windowIndex w.size (w.head - 1) = w.place (0 + 1) := rfl
  rw [calculateBranchResolutionLatency, marked, Option.bind_some, first, walked, Option.map_some,
    clean, bmod_eq_of_le (by omega) (by omega)]

end Fits

lemma fits_of_longest {map' : ℕ → ℕ} {sum : ℕ}
    (computed : w.calculateBranchResolutionLatency map = some (↑sum, map'))
    (longest : w.Longest sum) : ∀ age sum, w.Chain (fun _ => True) age sum → sum < 2 ^ 31 := by
  intro age sum' chain
  have least := longest.1 age sum' chain
  obtain ⟨_, -, mapped⟩ := Option.bind_eq_some_iff.mp computed
  obtain ⟨result, -, same⟩ := Option.map_eq_some_iff.mp mapped
  have small := bmod_lt (x := result.2) (m := 2 ^ 32) (by decide)
  rw [(Prod.mk.inj same).1] at small
  omega

end Walk

/-- The result is right exactly when all sums fit an `int` and no chain that ends at a direct
producer without a latency is longer than all that end at one with a latency. -/
theorem resolution_longest_iff (w : Windows) :
    (∃ sum : ℕ, w.calculateBranchResolutionLatency (fun _ => 0) = some (↑sum, fun _ => 0) ∧
        w.Longest sum) ↔
      (∀ age sum, w.Chain (fun _ => True) age sum → sum < 2 ^ 31) ∧
        ∀ age sum, w.Chain (fun last => ¬ w.Timed last) age sum → sum ≠ 0 →
          ∃ age' sum', w.Chain w.Timed age' sum' ∧ sum ≤ sum' := by
  constructor
  · rintro ⟨sum, computed, longest⟩
    have fits := fits_of_longest computed longest
    refine ⟨fits, fun age sum' chain nonzero => ?_⟩
    obtain ⟨best, computed', -, reached⟩ := calculate_eq fits
    obtain rfl : best = sum := by simpa [computed'] using computed
    have least := longest.1 age sum' chain.mono
    obtain ⟨age', chain'⟩ := reached.resolve_left (by omega)
    exact ⟨age', best, chain', least⟩
  · rintro ⟨fits, covered⟩
    obtain ⟨best, computed, bound, reached⟩ := calculate_eq fits
    refine ⟨best, computed, fun age sum chain => ?_, ?_⟩
    · rcases chain.timed_or_not with chain | chain
      · exact bound sum ⟨age, chain⟩
      · by_cases zero : sum = 0
        · omega
        · obtain ⟨age', sum', chain', least⟩ := covered age sum chain zero
          exact least.trans (bound sum' ⟨age', chain'⟩)
    · exact reached.imp_right (Exists.imp fun age chain => chain.mono)

def threeUops (latency : ℕ) : Windows where
  size := 4
  head := 2
  oldLength := 2
  entry := fun index =>
    ⟨index, if index = 1 then latency else 5, if index = 0 then [] else [index - 1]⟩
  inside := by decide
  consecutive := by
    change ∀ age ≤ 2, windowIndex 4 ((2 : ℕ) - (age : ℕ)) + age = 2
    decide
  earlier := by
    change ∀ age ≤ 2, ∀ dep ∈ (if windowIndex 4 ((2 : ℕ) - (age : ℕ)) = 0 then [] else
      [windowIndex 4 ((2 : ℕ) - (age : ℕ)) - 1]), dep < windowIndex 4 ((2 : ℕ) - (age : ℕ))
    decide

theorem threeUops_three : ∃ sum : ℕ, (threeUops 3).calculateBranchResolutionLatency (fun _ => 0) =
    some (↑sum, fun _ => 0) ∧ (threeUops 3).Longest sum := by
  have latencies : ∀ index, 0 < (threeUops 3).latency index ∧ (threeUops 3).latency index ≤ 5 := by
    intro index
    change 0 < (if index = 1 then 3 else 5) ∧ (if index = 1 then 3 else 5) ≤ 5
    split <;> decide
  refine (resolution_longest_iff (threeUops 3)).mpr ⟨fun age sum chain => ?_, ?_⟩
  · have small := chain.sum_le fun index => (latencies index).2
    have inside : age ≤ 2 := chain.inside.2
    omega
  · intro age sum chain
    exact absurd chain (not_chain fun age => not_not.mpr (latencies _).1)

/-- With a direct producer of latency zero the result is zero, though there is a chain of five. -/
theorem threeUops_zero :
    ((threeUops 0).calculateBranchResolutionLatency (fun _ => 0)).map Prod.fst = some 0 ∧
      (threeUops 0).Chain (fun _ => True) 2 5 ∧
      ¬ ∃ sum : ℕ, (threeUops 0).calculateBranchResolutionLatency (fun _ => 0) =
        some (↑sum, fun _ => 0) ∧ (threeUops 0).Longest sum := by
  have result : ((threeUops 0).calculateBranchResolutionLatency (fun _ => 0)).map Prod.fst =
      some 0 := by decide
  have direct : (threeUops 0).Feeds 1 0 := ⟨1, by decide, by decide, by decide, by decide⟩
  have further : (threeUops 0).Feeds 2 1 := ⟨0, by decide, by decide, by decide, by decide⟩
  have chain : (threeUops 0).Chain (fun _ => True) 2 (5 + 0) :=
    .further (.direct direct trivial) further
  refine ⟨result, chain, ?_⟩
  rintro ⟨sum, computed, longest, -⟩
  rw [computed] at result
  have zero : (sum : ℤ) = 0 := by simpa using result
  have five := longest 2 5 chain
  omega

end Windows

end Sniper.PerformanceModel.Resolution
