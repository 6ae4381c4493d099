import Sniper.Lib.Fallible
import Sniper.Lib.Cyclic
import Sniper.System.Threads

/-!
# Where the pinned scheduler puts new threads

`SchedulerPinned` deals out the cores that the mask enables in a round. The round goes up by the
interleaving, and at the end begins anew at one of the first cores. For an interleaving that is not
too large it permutes the cores, and the residue modulo the interleaving moves by `1 - N` whenever
the round begins anew.
-/

namespace Sniper.Scheduler.SchedulerPinned

open Fallible Sniper.System Function Nat List

inductive Fault where
  /-- A vector has no element of this index. -/
  | outOfBounds
  /-- The loop takes more turns than it is given. -/
  | unfinished
  deriving DecidableEq, Repr

variable (coreMask : List Bool) (interleaving : ℕ)

/-- The core is one of the application's cores, and threads may be put there. -/
abbrev Enabled (core : ℕ) : Prop := coreMask[core]? = some true

def advance (core : ℕ) : ℕ :=
  let core := core + interleaving
  if coreMask.length ≤ core then (core % coreMask.length + 1) % interleaving else core

/-- `getNextCore`, with a bound on the turns of its loop. -/
def getNextCore : ℕ → ℕ → Except Fault ℕ
  | 0, _ => .error .unfinished
  | fuel + 1, core =>
    let core := advance coreMask interleaving core
    match coreMask[core]? with
    | none => .error .outOfBounds
    | some true => .ok core
    | some false => getNextCore fuel core

/-- The loop of `getFreeCore`. -/
def getFreeCoreLoop (coreThreadRunning : List (Option ThreadId)) (bound coreFirst : ℕ) :
    ℕ → ℕ → Except Fault ℕ
  | 0, _ => .error .unfinished
  | fuel + 1, coreNext =>
    match coreThreadRunning[coreNext]? with
    | none => .error .outOfBounds
    | some none => .ok coreNext
    | some (some _) =>
      (getNextCore coreMask interleaving bound coreNext).bind fun coreNext =>
        if coreNext ≠ coreFirst then
          getFreeCoreLoop coreThreadRunning bound coreFirst fuel coreNext
        else .ok coreFirst

/-- `getFreeCore`, with a bound on the turns of each loop. -/
def getFreeCore (coreThreadRunning : List (Option ThreadId)) (bound coreFirst : ℕ) :
    Except Fault ℕ :=
  getFreeCoreLoop coreMask interleaving coreThreadRunning bound coreFirst bound coreFirst

structure State where
  nextCore : ℕ
  /-- The cores that threads were given, in their order. -/
  given : List ℕ
  deriving DecidableEq, Repr

def State.start : State := ⟨0, []⟩

/-- `threadSetInitialAffinity`, while these threads run on the cores. -/
def threadSetInitialAffinity (bound : ℕ) (s : State)
    (coreThreadRunning : List (Option ThreadId)) : Except Fault State :=
  (getFreeCore coreMask interleaving coreThreadRunning bound s.nextCore).bind fun core =>
    (getNextCore coreMask interleaving bound core).map fun nextCore =>
      ⟨nextCore, s.given ++ [core]⟩

def place (bound : ℕ) : State → List (List (Option ThreadId)) → Except Fault State
  | s, [] => .ok s
  | s, coreThreadRunning :: calls =>
    (threadSetInitialAffinity coreMask interleaving bound s coreThreadRunning).bind fun s =>
      place bound s calls

variable {coreMask : List Bool} {interleaving : ℕ}

/-! ## The round -/

section Round

variable {core core' : ℕ}

section

variable (small : interleaving ≤ coreMask.length)

include small

lemma advance_lt (positive : 0 < interleaving) :
    advance coreMask interleaving core < coreMask.length := by
  rw [advance]
  split
  · exact (mod_lt _ positive).trans_le small
  · omega

lemma iterate_advance_lt (positive : 0 < interleaving)
    (k : ℕ) : (advance coreMask interleaving)^[k + 1] core < coreMask.length := by
  rw [iterate_succ_apply']
  exact advance_lt small positive

lemma advance_of_le (inside : core < coreMask.length)
    (last : coreMask.length ≤ core + interleaving) :
    advance coreMask interleaving core =
      (core + interleaving - coreMask.length + 1) % interleaving := by
  have rest : (core + interleaving) % coreMask.length = core + interleaving - coreMask.length := by
    rw [mod_eq_sub_mod last, mod_eq_of_lt (by omega)]
  rw [advance, if_pos last, rest]

end

lemma iterate_advance_add {k : ℕ} (inside : core + k * interleaving < coreMask.length) :
    (advance coreMask interleaving)^[k] core = core + k * interleaving := by
  induction k with
  | zero => simp
  | succ k ih =>
    rw [succ_mul] at inside ⊢
    rw [iterate_succ_apply', ih (by omega), advance, if_neg (by omega), add_assoc]

abbrev classes (coreMask : List Bool) (interleaving : ℕ) : ℕ :=
  (coreMask.length - 1).gcd interleaving

section

variable (small : interleaving ≤ coreMask.length)

include small

lemma advance_modEq (inside : core < coreMask.length) :
    advance coreMask interleaving core ≡ core [MOD classes coreMask interleaving] := by
  have divides : classes coreMask interleaving ∣ interleaving := Nat.gcd_dvd_right _ _
  have up : core + interleaving ≡ core [MOD classes coreMask interleaving] :=
    (modEq_zero_iff_dvd.mpr divides).add_left core
  by_cases last : coreMask.length ≤ core + interleaving
  · have shift : core + interleaving =
        core + interleaving - coreMask.length + 1 + (coreMask.length - 1) := by omega
    have down : core + interleaving - coreMask.length + 1 + (coreMask.length - 1) ≡
        core + interleaving - coreMask.length + 1 [MOD classes coreMask interleaving] :=
      (modEq_zero_iff_dvd.mpr (Nat.gcd_dvd_left _ _)).add_left _
    rw [shift] at up
    rw [advance_of_le small inside last]
    exact ((mod_modEq _ _).of_dvd divides).trans (down.symm.trans up)
  · rw [advance, if_neg last]
    exact up

section

variable (positive : 0 < interleaving)

include positive

section

variable (inside : core < coreMask.length)

include inside

lemma iterate_advance_modEq (k : ℕ) :
    (advance coreMask interleaving)^[k] core ≡ core [MOD classes coreMask interleaving] := by
  induction k generalizing core with
  | zero => rfl
  | succ k ih =>
    rw [iterate_succ_apply]
    exact (ih (advance_lt small positive)).trans (advance_modEq small inside)

lemma exists_turn : ∃ k, (advance coreMask interleaving)^[k + 1] core < interleaving ∧
      ((advance coreMask interleaving)^[k + 1] core : ℤ) ≡
        core + (1 - coreMask.length : ℤ) [ZMOD interleaving] := by
  -- the last core that is reached by going up
  have split := div_add_mod' (coreMask.length - 1 - core) interleaving
  have rest := mod_lt (coreMask.length - 1 - core) positive
  generalize (coreMask.length - 1 - core) / interleaving = k at split
  have climbs : core + k * interleaving < coreMask.length := by omega
  have last : coreMask.length ≤ core + k * interleaving + interleaving := by omega
  refine ⟨k, ?_⟩
  rw [iterate_succ_apply', iterate_advance_add climbs, advance_of_le small climbs last]
  refine ⟨mod_lt _ positive, ?_⟩
  rw [Int.natCast_mod]
  refine (Int.mod_modEq _ _).trans ?_
  have value : ((core + k * interleaving + interleaving - coreMask.length + 1 : ℕ) : ℤ) =
      core + (1 - coreMask.length : ℤ) + interleaving * (k + 1) := by
    rw [cast_add, cast_sub last]
    push_cast
    ring
  rw [value]
  exact Int.modEq_add_fac_self

lemma exists_turns (j : ℕ) : ∃ k, (advance coreMask interleaving)^[k + 1] core < interleaving ∧
      ((advance coreMask interleaving)^[k + 1] core : ℤ) ≡
        core + (j + 1) * (1 - coreMask.length : ℤ) [ZMOD interleaving] := by
  induction j with
  | zero =>
    obtain ⟨k, low, residue⟩ := exists_turn small positive inside
    exact ⟨k, low, by simpa using residue⟩
  | succ j ih =>
    obtain ⟨k, low, residue⟩ := ih
    obtain ⟨k', low', residue'⟩ := exists_turn small positive (iterate_advance_lt small positive k)
    have whole : (advance coreMask interleaving)^[k' + 1 + k + 1] core =
        (advance coreMask interleaving)^[k' + 1]
          ((advance coreMask interleaving)^[k + 1] core) := by
      rw [← iterate_add_apply]
      rfl
    refine ⟨k' + 1 + k, ?_⟩
    rw [whole]
    refine ⟨low', residue'.trans ?_⟩
    have next := residue.add_right (1 - coreMask.length : ℤ)
    convert next using 1
    push_cast
    ring

lemma exists_iterate_advance
    (inside' : core' < coreMask.length) (same : core ≡ core' [MOD classes coreMask interleaving]) :
    ∃ k, (advance coreMask interleaving)^[k + 1] core = core' := by
  have divides : ((1 - coreMask.length : ℤ).gcd interleaving : ℤ) ∣ core' - core := by
    have absolute : (1 - coreMask.length : ℤ).natAbs = coreMask.length - 1 := by omega
    rw [Int.gcd, absolute]
    exact (modEq_iff_dvd.mp same)
  obtain ⟨j, rotates⟩ := Orbits.exists_rotation positive divides
  obtain ⟨k, low, residue⟩ := exists_turns small positive inside j
  have residue' : (advance coreMask interleaving)^[k + 1] core = core' % interleaving := by
    have equal := Int.natCast_modEq_iff.mp (residue.trans rotates)
    rwa [Nat.ModEq, mod_eq_of_lt low] at equal
  have climbs : core' % interleaving + core' / interleaving * interleaving = core' := by
    rw [mul_comm]
    exact mod_add_div _ _
  refine ⟨core' / interleaving + k, ?_⟩
  rw [add_assoc, iterate_add_apply, residue', iterate_advance_add, climbs]
  rw [climbs]
  exact inside'

-- the comment in the configuration file: "2 => 0,2,4,6,1,3,5,7"
end

end

end

example : (range 8).map (fun k => (advance (replicate 8 true) 2)^[k] 0) =
    [0, 2, 4, 6, 1, 3, 5, 7] := by decide

end Round

/-! ## The loops -/

section Loops

variable {bound bound' core core' : ℕ}

lemma getNextCore_enabled (returns : getNextCore coreMask interleaving bound core = .ok core') :
    Enabled coreMask core' ∧ ∃ k, (advance coreMask interleaving)^[k + 1] core = core' := by
  induction bound generalizing core with
  | zero => cases returns
  | succ bound ih =>
    rw [getNextCore] at returns
    split at returns
    · cases returns
    · rename_i enabled
      cases returns
      exact ⟨enabled, 0, rfl⟩
    · obtain ⟨enabled, k, later⟩ := ih returns
      exact ⟨enabled, k + 1, later⟩

lemma getNextCore_mono (returns : getNextCore coreMask interleaving bound core = .ok core')
    (more : bound ≤ bound') : getNextCore coreMask interleaving bound' core = .ok core' := by
  induction bound generalizing core bound' with
  | zero => cases returns
  | succ bound ih =>
    obtain ⟨bound', rfl⟩ := exists_eq_succ_of_ne_zero (by omega : bound' ≠ 0)
    rw [getNextCore] at returns ⊢
    split at returns
    · cases returns
    · exact returns
    · exact ih returns (by omega)

def Next (coreMask : List Bool) (interleaving core core' : ℕ) : Prop :=
  ∃ bound, getNextCore coreMask interleaving bound core = .ok core'

lemma getNextCore_of_passed {k : ℕ}
    (found : Enabled coreMask ((advance coreMask interleaving)^[k + 1] core))
    (passed : ∀ j < k, coreMask[(advance coreMask interleaving)^[j + 1] core]? = some false) :
    getNextCore coreMask interleaving (k + 1) core =
      .ok ((advance coreMask interleaving)^[k + 1] core) := by
  induction k generalizing core with
  | zero =>
    rw [iterate_one] at found ⊢
    rw [getNextCore, found]
  | succ k ih =>
    have first : coreMask[advance coreMask interleaving core]? = some false := passed 0 (by omega)
    rw [getNextCore, first]
    exact ih found fun j before => passed (j + 1) (by omega)

lemma next_of_hits (small : interleaving ≤ coreMask.length) (positive : 0 < interleaving)
    (hits : Orbits.Hits (advance coreMask interleaving) (Enabled coreMask) core core') :
    Next coreMask interleaving core core' := by
  obtain ⟨k, rfl, found, passed⟩ := hits
  refine ⟨k + 1, getNextCore_of_passed found fun j before => ?_⟩
  have disabled : ¬ coreMask[(advance coreMask interleaving)^[j + 1] core]? = some true :=
    passed j before
  rw [getElem?_eq_getElem (iterate_advance_lt small positive j)] at disabled ⊢
  simpa using disabled

lemma transGen_next (small : interleaving ≤ coreMask.length) (positive : 0 < interleaving)
    (inside : core < coreMask.length) (enabled : Enabled coreMask core')
    (same : core ≡ core' [MOD classes coreMask interleaving]) :
    Relation.TransGen (Next coreMask interleaving) core core' := by
  have inside' := (List.getElem?_eq_some_iff.mp enabled).1
  obtain ⟨k, rfl⟩ := exists_iterate_advance small positive inside inside' same
  have way : Relation.TransGen (Orbits.Hits (advance coreMask interleaving) (Enabled coreMask))
      core ((advance coreMask interleaving)^[k + 1] core) := Orbits.transGen_hits enabled
  exact Relation.TransGen.mono (fun _ _ => next_of_hits small positive) _ _ way

variable {coreThreadRunning : List (Option ThreadId)} {turns turns' coreFirst coreNext : ℕ}

lemma getFreeCoreLoop_mono
    (returns : getFreeCoreLoop coreMask interleaving coreThreadRunning bound coreFirst turns
      coreNext = .ok core) (more : bound ≤ bound') (moreTurns : turns ≤ turns') :
    getFreeCoreLoop coreMask interleaving coreThreadRunning bound' coreFirst turns' coreNext =
      .ok core := by
  induction turns generalizing coreNext turns' with
  | zero => cases returns
  | succ turns ih =>
    obtain ⟨turns', rfl⟩ := exists_eq_succ_of_ne_zero (by omega : turns' ≠ 0)
    rw [getFreeCoreLoop] at returns ⊢
    split at returns
    · cases returns
    · exact returns
    · obtain ⟨next, found, returns⟩ := bind_eq_ok.mp returns
      rw [getNextCore_mono found more]
      refine bind_eq_ok.mpr ⟨next, rfl, ?_⟩
      split at returns
      · rename_i other
        rw [if_pos other]
        exact ih returns (by omega)
      · rename_i same
        rw [if_neg same]
        exact returns

lemma getFreeCoreLoop_busy {thread : ThreadId}
    (busy : coreThreadRunning[coreNext]? = some (some thread))
    (next : getNextCore coreMask interleaving bound coreNext = .ok core') :
    getFreeCoreLoop coreMask interleaving coreThreadRunning bound coreFirst (turns + 1) coreNext =
      if core' ≠ coreFirst then
        getFreeCoreLoop coreMask interleaving coreThreadRunning bound coreFirst turns core'
      else .ok coreFirst := by
  rw [getFreeCoreLoop, busy]
  rw [next]
  rfl

lemma free_or_busy (sized : coreThreadRunning.length = coreMask.length)
    (enabled : Enabled coreMask core) :
    coreThreadRunning[core]? = some none ∨
      ∃ thread, coreThreadRunning[core]? = some (some thread) := by
  have inside : core < coreThreadRunning.length := sized ▸ (List.getElem?_eq_some_iff.mp enabled).1
  rw [getElem?_eq_getElem inside]
  cases coreThreadRunning[core] with
  | none => exact .inl rfl
  | some thread => exact .inr ⟨thread, rfl⟩

lemma exists_getFreeCoreLoop (sized : coreThreadRunning.length = coreMask.length)
    (enabled : Enabled coreMask coreNext)
    (way : Relation.TransGen (Next coreMask interleaving) coreNext coreFirst) :
    ∃ bound core, getFreeCoreLoop coreMask interleaving coreThreadRunning bound coreFirst bound
      coreNext = .ok core ∧ Enabled coreMask core := by
  induction way using Relation.TransGen.head_induction_on with
  | @single coreNext last =>
    rcases free_or_busy sized enabled with free | ⟨thread, busy⟩
    · exact ⟨1, coreNext, by rw [getFreeCoreLoop, free], enabled⟩
    · obtain ⟨bound, returns⟩ := last
      refine ⟨bound + 1, coreFirst, ?_, (getNextCore_enabled returns).1⟩
      rw [getFreeCoreLoop_busy busy (getNextCore_mono returns (le_succ bound)),
        if_neg (not_not.mpr rfl)]
  | @head coreNext after next way ih =>
    rcases free_or_busy sized enabled with free | ⟨thread, busy⟩
    · exact ⟨1, coreNext, by rw [getFreeCoreLoop, free], enabled⟩
    · obtain ⟨bound, returns⟩ := next
      obtain ⟨bound', core, found, enabled'⟩ := ih (getNextCore_enabled returns).1
      by_cases back : after = coreFirst
      · refine ⟨bound + 1, coreFirst, ?_, back ▸ (getNextCore_enabled returns).1⟩
        rw [getFreeCoreLoop_busy busy (getNextCore_mono returns (le_succ bound)),
          if_neg (not_not.mpr back)]
      · refine ⟨max bound bound' + 1, core, ?_, enabled'⟩
        rw [getFreeCoreLoop_busy busy (getNextCore_mono returns (by omega)), if_pos back]
        exact getFreeCoreLoop_mono found (by omega) (by omega)

end Loops

/-! ## Runs -/

section Runs

variable {bound bound' : ℕ} {s s' : State} {coreThreadRunning : List (Option ThreadId)}
  {calls : List (List (Option ThreadId))}

lemma threadSetInitialAffinity_mono
    (returns : threadSetInitialAffinity coreMask interleaving bound s coreThreadRunning = .ok s')
    (more : bound ≤ bound') :
    threadSetInitialAffinity coreMask interleaving bound' s coreThreadRunning = .ok s' := by
  obtain ⟨core, found, rest⟩ := bind_eq_ok.mp returns
  obtain ⟨next, after, rfl⟩ := map_eq_ok.mp rest
  exact bind_eq_ok.mpr ⟨core, getFreeCoreLoop_mono found more more,
    map_eq_ok.mpr ⟨next, getNextCore_mono after more, rfl⟩⟩

lemma place_mono (returns : place coreMask interleaving bound s calls = .ok s')
    (more : bound ≤ bound') : place coreMask interleaving bound' s calls = .ok s' := by
  induction calls generalizing s with
  | nil => exact returns
  | cons coreThreadRunning calls ih =>
    obtain ⟨next, first, returns⟩ := bind_eq_ok.mp returns
    exact bind_eq_ok.mpr ⟨next, threadSetInitialAffinity_mono first more, ih returns⟩

/-- What the round needs: it is for the mask to enable the first core, for the interleaving not to
be too large, and for the enabled cores to be of one residue class. -/
structure Round (coreMask : List Bool) (interleaving : ℕ) : Prop where
  first : Enabled coreMask 0
  small : interleaving ≤ coreMask.length
  divides : ∀ core, Enabled coreMask core → classes coreMask interleaving ∣ core

lemma Round.transGen (round : Round coreMask interleaving) (positive : 0 < interleaving)
    {core core' : ℕ} (enabled : Enabled coreMask core) (enabled' : Enabled coreMask core') :
    Relation.TransGen (Next coreMask interleaving) core core' := by
  have same : core ≡ core' [MOD classes coreMask interleaving] :=
    (modEq_zero_iff_dvd.mpr (round.divides core enabled)).trans
      (modEq_zero_iff_dvd.mpr (round.divides core' enabled')).symm
  exact transGen_next round.small positive (List.getElem?_eq_some_iff.mp enabled).1 enabled' same

lemma Round.threadSetInitialAffinity (round : Round coreMask interleaving)
    (positive : 0 < interleaving) (sized : coreThreadRunning.length = coreMask.length)
    (enabled : Enabled coreMask s.nextCore) :
    ∃ bound core next,
      SchedulerPinned.threadSetInitialAffinity coreMask interleaving bound s coreThreadRunning =
        .ok ⟨next, s.given ++ [core]⟩ ∧ Enabled coreMask core ∧ Enabled coreMask next := by
  obtain ⟨bound, core, found, given⟩ :=
    exists_getFreeCoreLoop sized enabled (round.transGen positive enabled enabled)
  obtain ⟨next, ⟨bound', returns⟩, -⟩ :=
    Relation.TransGen.head'_iff.mp (round.transGen positive given given)
  refine ⟨max bound bound', core, next, ?_, given, (getNextCore_enabled returns).1⟩
  exact bind_eq_ok.mpr ⟨core, getFreeCoreLoop_mono found (by omega) (by omega),
    map_eq_ok.mpr ⟨next, getNextCore_mono returns (by omega), rfl⟩⟩

lemma Round.place (round : Round coreMask interleaving) (positive : 0 < interleaving)
    (sized : ∀ coreThreadRunning ∈ calls, coreThreadRunning.length = coreMask.length)
    (enabled : Enabled coreMask s.nextCore) (given : ∀ core ∈ s.given, Enabled coreMask core) :
    ∃ bound s', SchedulerPinned.place coreMask interleaving bound s calls = .ok s' ∧
      ∀ core ∈ s'.given, Enabled coreMask core := by
  induction calls generalizing s with
  | nil => exact ⟨0, s, rfl, given⟩
  | cons coreThreadRunning calls ih =>
    obtain ⟨bound, core, next, first, enabledCore, enabledNext⟩ :=
      round.threadSetInitialAffinity positive (sized coreThreadRunning mem_cons_self) enabled
    have given' : ∀ core' ∈ s.given ++ [core], Enabled coreMask core' := by
      intro core' mem
      rcases mem_append.mp mem with mem | mem
      · exact given core' mem
      · rw [mem_singleton.mp mem]
        exact enabledCore
    obtain ⟨bound', s', rest, enabled'⟩ :=
      ih (s := ⟨next, s.given ++ [core]⟩) (fun running mem => sized running (by simp [mem]))
        enabledNext given'
    refine ⟨max bound bound', s', ?_, enabled'⟩
    exact bind_eq_ok.mpr ⟨_, threadSetInitialAffinity_mono first (by omega),
      place_mono rest (by omega)⟩

/-- The cores are dealt out as the options say: every loop ends, in every call that is made,
threads are put on enabled cores, and a round visits all of these. -/
structure Deals (coreMask : List Bool) (interleaving : ℕ) : Prop where
  terminates : ∀ core, Enabled coreMask core → ∃ core', Next coreMask interleaving core core'
  places : ∀ calls : List (List (Option ThreadId)),
    (∀ coreThreadRunning ∈ calls, coreThreadRunning.length = coreMask.length) →
      ∃ bound s, place coreMask interleaving bound .start calls = .ok s ∧
        ∀ core ∈ s.given, core < coreMask.length ∧ Enabled coreMask core
  visits : ∀ core core', Enabled coreMask core → Enabled coreMask core' →
    Relation.ReflTransGen (Next coreMask interleaving) core core'

lemma Round.deals (round : Round coreMask interleaving) (positive : 0 < interleaving) :
    Deals coreMask interleaving where
  terminates core enabled := by
    obtain ⟨core', next, -⟩ :=
      Relation.TransGen.head'_iff.mp (round.transGen positive enabled enabled)
    exact ⟨core', next⟩
  places calls sized := by
    obtain ⟨bound, s, returns, given⟩ :=
      round.place positive sized (s := .start) round.first (by rintro core ⟨⟩)
    refine ⟨bound, s, returns, fun core mem => ?_⟩
    exact ⟨(List.getElem?_eq_some_iff.mp (given core mem)).1, given core mem⟩
  visits := fun _ _ enabled enabled' => (round.transGen positive enabled enabled').to_reflTransGen

lemma Deals.first (deals : Deals coreMask interleaving) : Enabled coreMask 0 := by
  obtain ⟨bound, s, returns, given⟩ := deals.places [replicate coreMask.length none] (by simp)
  obtain ⟨s', first, returns⟩ := bind_eq_ok.mp returns
  cases returns
  obtain ⟨core, found, first⟩ := bind_eq_ok.mp first
  obtain ⟨next, -, rfl⟩ := map_eq_ok.mp first
  have enabled : Enabled coreMask core := (given core (by simp)).2
  have nonempty : State.start.nextCore < coreMask.length :=
    zero_lt_of_lt (List.getElem?_eq_some_iff.mp enabled).1
  cases bound with
  | zero => cases found
  | succ bound =>
    rw [getFreeCore, getFreeCoreLoop, getElem?_replicate, if_pos nonempty] at found
    rw [← Except.ok.inj found] at enabled
    exact enabled

lemma advance_pos (nonempty : 0 < coreMask.length) (large : coreMask.length < interleaving)
    (core : ℕ) : 0 < advance coreMask interleaving core := by
  have rest := mod_lt (core + interleaving) nonempty
  rw [advance, if_pos (by omega), mod_eq_of_lt (by omega)]
  exact succ_pos _

lemma not_next_zero (nonempty : 0 < coreMask.length) (large : coreMask.length < interleaving)
    (core : ℕ) : ¬ Next coreMask interleaving core 0 := by
  rintro ⟨bound, returns⟩
  obtain ⟨-, k, zero⟩ := getNextCore_enabled returns
  rw [iterate_succ_apply'] at zero
  have positive := advance_pos nonempty large ((advance coreMask interleaving)^[k] core)
  omega

lemma Deals.small (deals : Deals coreMask interleaving) : interleaving ≤ coreMask.length := by
  by_contra large
  rw [not_le] at large
  have nonempty := (List.getElem?_eq_some_iff.mp deals.first).1
  obtain ⟨core, next⟩ := deals.terminates 0 deals.first
  obtain ⟨bound, returns⟩ := next
  have back := deals.visits core 0 (getNextCore_enabled returns).1 deals.first
  rcases back.cases_tail with zero | ⟨before, -, last⟩
  · exact not_next_zero nonempty large 0 ⟨bound, zero ▸ returns⟩
  · exact not_next_zero nonempty large before last

lemma Deals.divides (deals : Deals coreMask interleaving) (positive : 0 < interleaving)
    {core : ℕ} (enabled : Enabled coreMask core) : classes coreMask interleaving ∣ core := by
  have way := deals.visits 0 core deals.first enabled
  have sameClass : Enabled coreMask core ∧ core ≡ 0 [MOD classes coreMask interleaving] := by
    clear enabled
    induction way with
    | refl => exact ⟨deals.first, rfl⟩
    | @tail before after earlier next ih =>
      obtain ⟨bound, returns⟩ := next
      obtain ⟨enabled, k, rfl⟩ := getNextCore_enabled returns
      have inside := (List.getElem?_eq_some_iff.mp ih.1).1
      exact ⟨enabled, (iterate_advance_modEq deals.small positive inside (k + 1)).trans ih.2⟩
  exact modEq_zero_iff_dvd.mp sameClass.2

/-- When the cores are dealt out as the options say. -/
theorem deals_iff (positive : 0 < interleaving) :
    Deals coreMask interleaving ↔ Enabled coreMask 0 ∧ interleaving ≤ coreMask.length ∧
      ∀ core, Enabled coreMask core → (coreMask.length - 1).gcd interleaving ∣ core := by
  constructor
  · intro deals
    exact ⟨deals.first, deals.small, fun core => deals.divides positive⟩
  · rintro ⟨first, small, divides⟩
    exact Round.deals ⟨first, small, divides⟩ positive

/-- The options of a machine of four cores, of which one is not used. -/
theorem deals_three_of_four : Deals [true, false, true, true] 2 :=
  (deals_iff (by decide)).mpr ⟨by decide, by decide, fun core _ => one_dvd core⟩

/-- The mask does not enable the first core, and the first thread is put there. -/
theorem place_outside_mask : ¬ Enabled [false, true] 0 ∧
    place [false, true] 1 2 .start [[none, none]] = .ok ⟨1, [0]⟩ := by
  decide

end Runs

end Sniper.Scheduler.SchedulerPinned
