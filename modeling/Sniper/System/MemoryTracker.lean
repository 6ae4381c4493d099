import Mathlib.Order.Lattice.Nat
import Sniper.Lib.Sorted
import Sniper.Lib.Runs

/-!
# The memory tracker

The tracker charges every allocation to the call stack that made it. Its interval map is keyed by
the first cache line that no longer belongs to an allocation, and the range found for an address is
the one with the first greater key. A new allocation trims the range that holds its first line and
nothing else.

The two agree along a run as long as no call swallows an older range that begins behind its first
line, and no call splits a range while another one ends at its first line.
-/

namespace Sniper.MemoryTracker

open Function OrderedMap Option Nat

abbrev Site := ℕ

structure AllocationSite where
  numAllocations : ℕ
  totalSize : ℕ

structure Allocation where
  size : ℕ
  site : Site
  deriving DecidableEq

abbrev Allocations := OrderedMap ℕ Allocation

def start (entry : ℕ × Allocation) : ℕ := entry.1 - entry.2.size

def trim (m : Allocations) (lower upper : ℕ) : Allocations :=
  match m.upperBound lower with
  | none => m
  | some previous =>
    if start previous ≤ lower then
      let m := if start previous < lower then
          m.set lower ⟨lower - start previous, previous.2.site⟩
        else m
      if upper < previous.1 then m.set previous.1 ⟨previous.1 - upper, previous.2.site⟩
      else m.erase previous.1
    else m

def record (m : Allocations) (lower upper : ℕ) (site : Site) : Allocations :=
  (trim m lower upper).set upper ⟨upper - lower, site⟩

def owner (m : Allocations) (address : ℕ) : Option Site :=
  match m.upperBound address with
  | none => none
  | some entry => if start entry ≤ address then some entry.2.site else none

section Ranges

variable {m : Allocations} {lower upper : ℕ}

/-- The new range meets no older one that begins behind its first line and ends within it, and
where it splits a range no other one ends at the cut. -/
def Clear (m : Allocations) (lower upper : ℕ) : Prop :=
  (∀ entry ∈ m.entries, lower < entry.1 → entry.1 < upper →
    m.upperBound lower = some entry ∧ start entry ≤ lower) ∧
  ∀ entry ∈ m.entries, entry.1 = lower →
    ∀ previous ∈ m.upperBound lower, lower ≤ start previous

instance : Decidable (Clear m lower upper) := inferInstanceAs (Decidable (_ ∧ _))

/-- The range found for the first line of the new one begins at or before it. -/
def Covered (m : Allocations) (lower : ℕ) (previous : ℕ × Allocation) : Prop :=
  m.upperBound lower = some previous ∧ start previous ≤ lower

lemma trim_of_not_covered (apart : ¬ ∃ previous, Covered m lower previous) :
    trim m lower upper = m := by
  rw [trim]
  split
  · rfl
  · next previous found => rw [if_neg fun begins => apart ⟨previous, found, begins⟩]

variable {a k : ℕ} {previous : ℕ × Allocation} {v : Allocation} {site : Site}

lemma maps_trim (covered : Covered m lower previous) : (trim m lower upper).Maps k v ↔
      k = previous.1 ∧ upper < k ∧ v = ⟨k - upper, previous.2.site⟩ ∨
      k = lower ∧ start previous < lower ∧ v = ⟨lower - start previous, previous.2.site⟩ ∨
      k ≠ previous.1 ∧ (k = lower → lower ≤ start previous) ∧ m.Maps k v := by
  have beyond : lower < previous.1 := (first_of_upperBound covered.1).beyond
  rw [trim, covered.1]
  simp only [if_pos covered.2]
  by_cases cut : start previous < lower <;> by_cases remains : upper < previous.1 <;>
    simp only [cut, remains, if_true, if_false, maps_set, maps_erase]
  all_goals grind

lemma owner_of_first (first : m.First a k v) :
    owner m a = if start (k, v) ≤ a then some v.site else none := by
  rw [owner, first.upperBound_eq]

lemma trim_gap (clear : Clear m lower upper)
    (held : (trim m lower upper).Maps k v) : k ≤ lower ∨ upper ≤ k := by
  by_contra inside
  by_cases covered : ∃ previous, Covered m lower previous
  · obtain ⟨previous, covered⟩ := covered
    obtain ⟨-, remains, -⟩ | ⟨same, -⟩ | ⟨different, -, old⟩ := (maps_trim covered).mp held
    · omega
    · omega
    · have found := (clear.1 (k, v) old (by omega) (by omega)).1
      rw [covered.1] at found
      exact different (congrArg Prod.fst (some.inj found)).symm
  · rw [trim_of_not_covered covered] at held
    exact covered ⟨(k, v), clear.1 (k, v) held (by omega) (by omega)⟩

lemma owner_record_inside (clear : Clear m lower upper)
    (low : lower ≤ a) (high : a < upper) : owner (record m lower upper site) a = some site := by
  have first : (record m lower upper site).First a upper ⟨upper - lower, site⟩ := by
    refine ⟨maps_set.mpr (.inl ⟨rfl, rfl⟩), high, fun k v held beyond => ?_⟩
    obtain ⟨same, -⟩ | ⟨-, old⟩ := maps_set.mp held
    · exact same.ge
    · obtain below | above := trim_gap clear old <;> omega
  rw [owner_of_first first, if_pos]
  simp only [start]
  omega

lemma owner_congr {m' : Allocations}
    (same : ∀ k v, a < k → (m.Maps k v ↔ m'.Maps k v)) : owner m a = owner m' a := by
  rw [owner, upperBound_congr same, owner]

lemma owner_record_above (ordered : lower < upper) (high : upper ≤ a) :
    owner (record m lower upper site) a = owner m a := by
  by_cases covered : ∃ previous, Covered m lower previous
  · obtain ⟨previous, covered⟩ := covered
    have old := first_of_upperBound covered.1
    obtain within | past := lt_or_ge a previous.1
    -- What remains of the trimmed range begins at the end of the new one.
    · have new : (record m lower upper site).First a previous.1
          ⟨previous.1 - upper, previous.2.site⟩ := by
        refine ⟨maps_set.mpr (.inr ⟨by omega, (maps_trim covered).mpr
          (.inl ⟨rfl, by omega, rfl⟩)⟩), within, fun k v held beyond => ?_⟩
        obtain ⟨same, -⟩ | ⟨-, rest⟩ := maps_set.mp held
        · omega
        · obtain ⟨same, -⟩ | ⟨same, -⟩ | ⟨-, -, kept⟩ := (maps_trim covered).mp rest
          · exact same.ge
          · omega
          · exact old.first k v kept (by omega)
      have before : m.First a previous.1 previous.2 :=
        ⟨old.held, within, fun k v held beyond => old.first k v held (by omega)⟩
      have begins := covered.2
      rw [owner_of_first new, owner_of_first before, if_pos, if_pos] <;> simp only [start] at * <;>
        omega
    · refine owner_congr fun k v beyond => ?_
      rw [record, maps_set, maps_trim covered]
      have : k ≠ upper ∧ k ≠ previous.1 ∧ k ≠ lower := by omega
      simp [this]
  · refine owner_congr fun k v beyond => ?_
    rw [record, trim_of_not_covered covered, maps_set]
    have : k ≠ upper := by omega
    simp [this]

lemma maps_record_of_le (ordered : lower < upper) (low : k ≤ lower)
    (whole : k = lower → ∀ previous, Covered m lower previous → lower ≤ start previous) :
    (record m lower upper site).Maps k v ↔ m.Maps k v := by
  have : k ≠ upper := by omega
  rw [record, maps_set]
  by_cases covered : ∃ previous, Covered m lower previous
  · obtain ⟨previous, covered⟩ := covered
    have beyond := (first_of_upperBound covered.1).beyond
    have apart : k ≠ previous.1 := by omega
    have kept := fun same => whole same previous covered
    rw [maps_trim covered]
    grind
  · simp [trim_of_not_covered covered, this]

lemma maps_record_below (ordered : lower < upper) (below : k < lower) :
    (record m lower upper site).Maps k v ↔ m.Maps k v :=
  maps_record_of_le ordered below.le fun same => absurd same below.ne

lemma owner_record_cut (clear : Clear m lower upper)
    (covered : Covered m lower previous) (cut : start previous < lower)
    (ordered : lower < upper) (low : a < lower) (near : ∀ k v, m.Maps k v → a < k → lower ≤ k) :
    owner (record m lower upper site) a = owner m a := by
  have old := first_of_upperBound covered.1
  have free : ∀ v, ¬ m.Maps lower v := fun v held => by
    have := clear.2 (lower, v) held rfl previous covered.1
    omega
  have before : m.First a previous.1 previous.2 := by
    refine ⟨old.held, by have := old.beyond; omega, fun k v held beyond => ?_⟩
    refine old.first k v held (lt_of_le_of_ne (near k v held beyond) ?_)
    rintro rfl
    exact free v held
  have new : (record m lower upper site).First a lower
      ⟨lower - start previous, previous.2.site⟩ := by
    refine ⟨maps_set.mpr (.inr ⟨ordered.ne, (maps_trim covered).mpr
      (.inr (.inl ⟨rfl, cut, rfl⟩))⟩), low, fun k v held beyond => ?_⟩
    obtain below | above := lt_or_ge k lower
    · exact near k v ((maps_record_below ordered below).mp held) beyond
    · exact above
  have begins : start (lower, ⟨lower - start previous, previous.2.site⟩) = start previous := by
    change lower - (lower - start previous) = start previous
    omega
  rw [owner_of_first new, owner_of_first before, begins]

lemma owner_record_whole (clear : Clear m lower upper)
    (whole : ∀ previous, Covered m lower previous → lower ≤ start previous)
    (ordered : lower < upper) (low : a < lower) (near : ∀ k v, m.Maps k v → a < k → lower ≤ k) :
    owner (record m lower upper site) a = owner m a := by
  have near' : ∀ k v, (record m lower upper site).Maps k v → a < k → lower ≤ k := by
    intro k v held beyond
    obtain below | above := lt_or_ge k lower
    · exact near k v ((maps_record_below ordered below).mp held) beyond
    · exact above
  by_cases ends : ∃ v, m.Maps lower v
  · obtain ⟨v, held⟩ := ends
    rw [owner_of_first ⟨held, low, near⟩,
      owner_of_first ⟨(maps_record_of_le ordered le_rfl fun _ => whole).mpr held, low, near'⟩]
  -- Neither map has an entry up to the new range, and what comes first begins at or behind it.
  · have new : (record m lower upper site).First a upper ⟨upper - lower, site⟩ := by
      refine ⟨maps_set.mpr (.inl ⟨rfl, rfl⟩), by omega, fun k v held beyond => ?_⟩
      obtain ⟨same, -⟩ | ⟨-, rest⟩ := maps_set.mp held
      · exact same.ge
      · obtain below | above := trim_gap clear rest
        · have same : k = lower := le_antisymm below (near' k v held beyond)
          exact absurd ⟨v, (maps_record_of_le ordered le_rfl fun _ => whole).mp (same ▸ held)⟩ ends
        · exact above
    have unowned : owner m a = none := by
      rw [owner]
      split
      · rfl
      · next entry found =>
        refine if_neg fun begins => ?_
        have first := first_of_upperBound (k := entry.1) (v := entry.2) found
        have past : lower < entry.1 :=
          lt_of_le_of_ne (near _ _ first.held first.beyond) fun same =>
            ends ⟨entry.2, same ▸ first.held⟩
        have covered : Covered m lower entry :=
          ⟨First.upperBound_eq ⟨first.held, past, fun k v held beyond =>
            first.first k v held (low.trans beyond)⟩, begins.trans low.le⟩
        have := whole entry covered
        omega
    rw [owner_of_first new, unowned, if_neg]
    simp only [start]
    omega

lemma owner_record_below (clear : Clear m lower upper) (ordered : lower < upper) (low : a < lower) :
    owner (record m lower upper site) a = owner m a := by
  by_cases near : ∀ k v, m.Maps k v → a < k → lower ≤ k
  · by_cases cut : ∃ previous, Covered m lower previous ∧ start previous < lower
    · obtain ⟨previous, covered, begins⟩ := cut
      exact owner_record_cut clear covered begins ordered low near
    · push Not at cut
      exact owner_record_whole clear cut ordered low near
  · push Not at near
    obtain ⟨k, v, held, beyond, below⟩ := near
    cases found : m.upperBound a with
    | none => exact absurd beyond (upperBound_eq_none.mp found k v held).not_gt
    | some entry =>
      have first := first_of_upperBound (k := entry.1) (v := entry.2) found
      have closest := first.first k v held beyond
      have new : (record m lower upper site).First a entry.1 entry.2 := by
        refine ⟨(maps_record_below ordered (by omega)).mpr first.held, first.beyond, ?_⟩
        intro k' v' held' beyond'
        obtain inner | outer := lt_or_ge k' lower
        · exact first.first k' v' ((maps_record_below ordered inner).mp held') beyond'
        · omega
      rw [owner_of_first first, owner_of_first new]

lemma owner_record (clear : Clear m lower upper) (ordered : lower < upper) (site : Site) (a : ℕ) :
    owner (record m lower upper site) a =
      if lower ≤ a ∧ a < upper then some site else owner m a := by
  obtain low | low := lt_or_ge a lower
  · rw [owner_record_below clear ordered low, if_neg (by omega)]
  · obtain high | high := lt_or_ge a upper
    · rw [owner_record_inside clear low high, if_pos ⟨low, high⟩]
    · rw [owner_record_above ordered high, if_neg (by omega)]

def Sized (m : Allocations) : Prop := ∀ k v, m.Maps k v → v.size ≤ k

lemma Sized.record (sized : Sized m) : Sized (record m lower upper site) := by
  intro k v held
  obtain ⟨rfl, rfl⟩ | ⟨-, rest⟩ := maps_set.mp held
  · exact sub_le _ _
  · by_cases covered : ∃ previous, Covered m lower previous
    · obtain ⟨previous, covered⟩ := covered
      obtain ⟨-, -, rfl⟩ | ⟨rfl, -, rfl⟩ | ⟨-, -, kept⟩ := (maps_trim covered).mp rest
      · exact sub_le _ _
      · exact sub_le _ _
      · exact sized k v kept
    · rw [trim_of_not_covered covered] at rest
      exact sized k v rest

end Ranges

/-! ### The tracker -/

def lineOf (address : ℕ) : ℕ := address / 64 * 64

structure Malloc (C : Type*) where
  stack : C
  address : ℕ
  size : ℕ
  positive : 0 < size
  representable : address + size + 63 < 2 ^ 64

namespace Malloc

variable {C : Type*}

def lower (call : Malloc C) : ℕ := lineOf call.address

def upper (call : Malloc C) : ℕ := lineOf (call.address + call.size + 63)

def Holds (call : Malloc C) (a : ℕ) : Prop := call.lower ≤ a ∧ a < call.upper

instance (call : Malloc C) (a : ℕ) : Decidable (call.Holds a) :=
  inferInstanceAs (Decidable (_ ∧ _))

lemma lower_lt_upper (call : Malloc C) : call.lower < call.upper := by
  have := call.positive
  simp only [lower, upper, lineOf]
  omega

end Malloc

/-- The tracker with the owner of every line that the slow checker keeps and, latest first, the
calls it has logged. -/
structure Tracker (C : Type*) where
  allocations : Allocations
  allocationsSlow : ℕ → Option Site
  allocationSites : C → Option Site
  site : Site → AllocationSite
  nextSite : Site
  calls : List (Malloc C)

namespace Tracker

variable {C : Type*} [DecidableEq C]

def new : Tracker C where
  allocations := .empty
  allocationsSlow _ := none
  allocationSites _ := none
  site _ := ⟨0, 0⟩
  nextSite := 0
  calls := []

variable (t : Tracker C)

def findSite (stack : C) : Site := (t.allocationSites stack).getD t.nextSite

def markLines (slow : ℕ → Option Site) (lower : ℕ) (site : Site) : ℕ → ℕ → Option Site
  | 0 => slow
  | lines + 1 => update (markLines slow lower site lines) (lower + 64 * lines) site

def logMalloc (call : Malloc C) : Tracker C :=
  let site := t.findSite call.stack
  { allocations := record t.allocations call.lower call.upper site
    allocationsSlow :=
      markLines t.allocationsSlow call.lower site ((call.upper - call.lower) / 64)
    allocationSites := update t.allocationSites call.stack site
    nextSite := if t.allocationSites call.stack = none then t.nextSite + 1 else t.nextSite
    site := update t.site site
      ⟨(t.site site).numAllocations + 1, (t.site site).totalSize + call.size⟩
    calls := call :: t.calls }

def ceGetOwner (address : ℕ) : Option Site := owner t.allocations address

def ownerSlow (address : ℕ) : Option Site := t.allocationsSlow (lineOf address)

def latest (a : ℕ) : Option Site :=
  (t.calls.find? fun call => call.Holds a).bind fun call => t.allocationSites call.stack

/-- Both tables give every address the site of the latest call that holds it. -/
def Agrees : Prop :=
  ∀ a, t.ceGetOwner a = t.latest a ∧ t.ownerSlow a = t.latest a

lemma markLines_apply (slow : ℕ → Option Site) (lower : ℕ) (site : Site) (lines line : ℕ)
    (aligned : lower % 64 = line % 64) :
    markLines slow lower site lines line =
      if lower ≤ line ∧ line < lower + 64 * lines then some site else slow line := by
  induction lines with
  | zero => rw [markLines, if_neg (by omega)]
  | succ lines ih =>
    rw [markLines, update_apply, ih]
    by_cases last : line = lower + 64 * lines
    · rw [if_pos last, if_pos (by omega)]
    · rw [if_neg last]
      congr 1
      simp only [eq_iff_iff]
      omega

omit [DecidableEq C] in
lemma lineOf_inside (call : Malloc C) (a : ℕ) :
    call.lower ≤ lineOf a ∧ lineOf a < call.lower + 64 * ((call.upper - call.lower) / 64) ↔
      call.Holds a := by
  have := call.lower_lt_upper
  simp only [Malloc.Holds, Malloc.lower, Malloc.upper, lineOf] at *
  omega

lemma ownerSlow_logMalloc (call : Malloc C) (a : ℕ) : (t.logMalloc call).ownerSlow a =
      if call.Holds a then some (t.findSite call.stack) else t.ownerSlow a := by
  have aligned : call.lower % 64 = lineOf a % 64 := by
    simp only [Malloc.lower, lineOf, mul_mod_left]
  simp only [ownerSlow, logMalloc, markLines_apply _ _ _ _ _ aligned, lineOf_inside]

variable {call : Malloc C} {t : Tracker C}

lemma ceGetOwner_logMalloc (clear : Clear t.allocations call.lower call.upper) (a : ℕ) :
    (t.logMalloc call).ceGetOwner a =
      if call.Holds a then some (t.findSite call.stack) else t.ceGetOwner a :=
  owner_record clear call.lower_lt_upper _ a

structure Sited (t : Tracker C) : Prop where
  logged : ∀ call ∈ t.calls, t.allocationSites call.stack ≠ none
  created : ∀ stack site, t.allocationSites stack = some site → site < t.nextSite
  distinct : ∀ stack stack' site, t.allocationSites stack = some site →
    t.allocationSites stack' = some site → stack = stack'

lemma latest_logMalloc (sited : t.Sited) (call : Malloc C) (a : ℕ) : (t.logMalloc call).latest a =
      if call.Holds a then some (t.findSite call.stack) else t.latest a := by
  by_cases holds : call.Holds a
  · simp [latest, logMalloc, holds]
  · rw [if_neg holds, latest, latest]
    have rest : (t.logMalloc call).calls.find? (fun call => call.Holds a) =
        t.calls.find? fun call => call.Holds a := by
      simp [logMalloc, holds]
    rw [rest]
    refine bind_congr fun older found => ?_
    simp only [logMalloc, update_apply]
    split
    · next same =>
      have known := sited.logged older (List.mem_of_find?_eq_some found)
      obtain ⟨site, known⟩ := ne_none_iff_exists'.mp known
      rw [findSite, ← same, known, getD_some]
    · rfl

lemma site_cases (t : Tracker C) (call : Malloc C) :
    t.allocationSites call.stack = some (t.findSite call.stack) ∧
        (t.logMalloc call).nextSite = t.nextSite ∨
      t.findSite call.stack = t.nextSite ∧ (t.logMalloc call).nextSite = t.nextSite + 1 := by
  cases known : t.allocationSites call.stack with
  | none => exact .inr (by simp [findSite, logMalloc, known])
  | some site => exact .inl (by simp [findSite, logMalloc, known])

lemma Sited.logMalloc (sited : t.Sited) (call : Malloc C) : (t.logMalloc call).Sited := by
  have sites : ∀ stack, (t.logMalloc call).allocationSites stack =
      if stack = call.stack then some (t.findSite call.stack) else t.allocationSites stack :=
    update_apply _ _ _
  have shared : ∀ stack, stack ≠ call.stack →
      t.allocationSites stack ≠ some (t.findSite call.stack) := by
    intro stack other same
    obtain ⟨known, -⟩ | ⟨fresh, -⟩ := t.site_cases call
    · exact other (sited.distinct _ _ _ same known)
    · exact absurd (sited.created _ _ same) (fresh ▸ lt_irrefl _)
  refine ⟨fun older logged => ?_, fun stack site found => ?_,
    fun stack stack' site first second => ?_⟩
  · rw [sites]
    split
    · exact some_ne_none _
    · next other =>
      obtain rfl | before := List.mem_cons.mp logged
      · exact absurd rfl other
      · exact sited.logged older before
  · rw [sites] at found
    split at found
    · cases found
      obtain ⟨known, next⟩ | ⟨fresh, next⟩ := t.site_cases call
      · exact next ▸ sited.created _ _ known
      · exact next ▸ fresh ▸ lt_succ_self _
    · have known := sited.created _ _ found
      obtain ⟨-, next⟩ | ⟨-, next⟩ := t.site_cases call
      · exact next ▸ known
      · exact next ▸ lt_succ_of_lt known
  · rw [sites] at first second
    split at first <;> split at second
    · next same same' => exact same.trans same'.symm
    · next _ other => exact absurd (first ▸ second) (shared _ other)
    · next other _ => exact absurd (second ▸ first) (shared _ other)
    · exact sited.distinct _ _ _ first second

structure Sound (t : Tracker C) : Prop where
  agrees : t.Agrees
  sited : t.Sited
  sized : Sized t.allocations

omit [DecidableEq C] in
lemma Sound.new : (new : Tracker C).Sound where
  agrees _ := ⟨rfl, rfl⟩
  sited := ⟨by simp [Tracker.new], by simp [Tracker.new], by simp [Tracker.new]⟩
  sized _ _ held := absurd held not_maps_empty

def ClearCall (t : Tracker C) (call : Malloc C) : Prop :=
  Clear t.allocations call.lower call.upper

instance (t : Tracker C) (call : Malloc C) : Decidable (t.ClearCall call) :=
  inferInstanceAs (Decidable (Clear _ _ _))

lemma Sound.logMalloc (sound : t.Sound) (clear : t.ClearCall call) : (t.logMalloc call).Sound where
  agrees a := by
    rw [ceGetOwner_logMalloc clear, ownerSlow_logMalloc, latest_logMalloc sound.sited]
    split
    · exact ⟨rfl, rfl⟩
    · exact sound.agrees a
  sited := sound.sited.logMalloc call
  sized := sound.sized.record

/-- Along every run in which each call finds its range clear, every lookup in the interval map
returns the allocation site of the latest call that holds the address, as the slow checker does. -/
theorem owners_agree {calls : List (Malloc C)}
    (clear : Runs.Guarded logMalloc ClearCall (new : Tracker C) calls) :
    Runs.Throughout logMalloc Agrees (new : Tracker C) calls :=
  Runs.throughout_guarded (I := Sound) (fun _ _ sound clear => sound.logMalloc clear)
    (fun _ sound => sound.agrees) Sound.new clear

def fourLines : Malloc Bool := ⟨true, 64, 256, by decide, by decide⟩

def middle : Malloc Bool := ⟨false, 128, 128, by decide, by decide⟩

theorem split_agrees :
    Runs.Guarded logMalloc ClearCall new [fourLines, middle] ∧
      Runs.Throughout logMalloc Agrees new [fourLines, middle] :=
  ⟨by decide +kernel, owners_agree (by decide +kernel)⟩

/-- A call over two allocated lines leaves its first line without an owner and its middle lines
with the one they had. -/
theorem swallowed_disagrees :
    let t := Runs.run logMalloc new [middle, fourLines]
    (t.ceGetOwner 64 = none ∧ t.latest 64 = some 1 ∧ t.ownerSlow 64 = some 1) ∧
      t.ceGetOwner 128 = some 0 ∧ t.latest 128 = some 1 ∧ t.ownerSlow 128 = some 1 := by
  decide +kernel

end Tracker

end Sniper.MemoryTracker
