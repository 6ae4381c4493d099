import Sniper.Lib.Runs
import Sniper.PerformanceModel.NehalemPorts
import Sniper.Rob.Timer

/-!
# Contention for the ports of a Nehalem core

In every cycle `RobTimer` offers uops to `RobContentionNehalem`, which takes a port for each that it
accepts. Ports 0, 1 and 5 are shared, so the uops that take one of them are counted: those that can
take any, and those that need port 0 or 5. A uop also needs its unit, which may be in use for longer
than a cycle.
-/

namespace Sniper.Rob

open PerformanceModel.Nehalem Function Option Nat Runs

inductive UopAlu where
  | none
  | trig
  deriving DecidableEq, Repr

/-- What the contention model reads of a uop; the latency is `getAluLatency`. -/
structure DynamicMicroOpNehalem where
  port : UopPort
  alu : UopAlu
  aluLatency : ℕ
  deriving DecidableEq, Repr

structure RobContentionNehalem where
  now : ℕ
  ports : UopPort → Bool
  portsGeneric : ℕ
  portsGeneric05 : ℕ
  aluUsedUntil : UopAlu → ℕ

namespace RobContentionNehalem

def create : RobContentionNehalem := ⟨0, fun _ => false, 0, 0, fun _ => 0⟩

def initCycle (now : ℕ) (s : RobContentionNehalem) : RobContentionNehalem :=
  { s with now := now, ports := fun _ => false, portsGeneric := 0, portsGeneric05 := 0 }

/-- The port contention of `tryIssue`. -/
def takePort (port : UopPort) (s : RobContentionNehalem) : Option RobContentionNehalem :=
  match port with
  | .port015 =>
    if s.portsGeneric ≥ 3 then none else some { s with portsGeneric := s.portsGeneric + 1 }
  | .port05 =>
    if s.portsGeneric05 ≥ 2 then none else some { s with portsGeneric05 := s.portsGeneric05 + 1 }
  | .port2 | .port34 =>
    if s.ports port = true then none
    else some { s with ports := update s.ports port true }
  | .port0 | .port1 | .port5 =>
    if s.ports port = true then none
    else if s.portsGeneric ≥ 3 then none
    else if port ≠ .port1 ∧ s.portsGeneric05 ≥ 2 then none
    else some { s with
      ports := update s.ports port true
      portsGeneric := s.portsGeneric + 1
      portsGeneric05 := if port ≠ .port1 then s.portsGeneric05 + 1 else s.portsGeneric05 }

def AluBusy (uop : DynamicMicroOpNehalem) (s : RobContentionNehalem) : Prop :=
  uop.alu ≠ .none ∧ s.aluUsedUntil uop.alu > s.now

instance (uop : DynamicMicroOpNehalem) (s : RobContentionNehalem) : Decidable (AluBusy uop s) :=
  inferInstanceAs (Decidable (_ ∧ _))

def tryIssue (uop : DynamicMicroOpNehalem) (s : RobContentionNehalem) :
    Bool × RobContentionNehalem :=
  match s.takePort uop.port with
  | none => (false, s)
  | some taken => (decide (¬ AluBusy uop taken), taken)

def doIssue (uop : DynamicMicroOpNehalem) (s : RobContentionNehalem) : RobContentionNehalem :=
  if uop.alu ≠ .none then
    { s with aluUsedUntil := update s.aluUsedUntil uop.alu (s.now + uop.aluLatency) }
  else s

def noMore (s : RobContentionNehalem) : Bool :=
  s.ports .port2 && s.ports .port34 && decide (s.portsGeneric ≥ 3)

def contention (info : DynamicMicroOp → DynamicMicroOpNehalem) :
    RobContention RobContentionNehalem where
  initCycle := initCycle
  tryIssue := fun uop => tryIssue (info uop)
  noMore := noMore
  doIssue := fun uop => doIssue (info uop)

/-- A uop is offered; `RobTimer` issues it when it is accepted. -/
def offer (s : RobContentionNehalem) (uop : DynamicMicroOpNehalem) : RobContentionNehalem :=
  let (accepted, s) := s.tryIssue uop
  if accepted = true then s.doIssue uop else s

def PortFree (s : RobContentionNehalem) : UopPort → Prop
  | .port015 => s.portsGeneric < 3
  | .port05 => s.portsGeneric05 < 2
  | .port1 => s.ports .port1 = false ∧ s.portsGeneric < 3
  | .port0 => s.ports .port0 = false ∧ s.portsGeneric < 3 ∧ s.portsGeneric05 < 2
  | .port5 => s.ports .port5 = false ∧ s.portsGeneric < 3 ∧ s.portsGeneric05 < 2
  | port => s.ports port = false

section Ports

variable {s taken : RobContentionNehalem} {port : UopPort} {uop : DynamicMicroOpNehalem}

lemma takePort_isSome : (s.takePort port).isSome ↔ s.PortFree port := by
  rw [isSome_iff_exists]
  cases port <;> simp [takePort, PortFree]

lemma PortFree.generic (free : s.PortFree port) (not2 : port ≠ .port2) (not34 : port ≠ .port34)
    (not05 : port ≠ .port05) : s.portsGeneric < 3 := by
  cases port with
  | port015 => exact free
  | port0 | port1 | port5 => simp_all [PortFree]
  | port2 | port34 | port05 => contradiction

lemma takePort_marks (uop : DynamicMicroOpNehalem) (took : s.takePort port = some taken) :
    taken ≠ s ∧ (AluBusy uop taken ↔ AluBusy uop s) := by
  cases port <;> simp only [takePort, ite_none_left_eq_some, some.injEq] at took
  case port015 =>
    obtain ⟨room, rfl⟩ := took
    exact ⟨fun same => absurd (congrArg portsGeneric same) (succ_ne_self _), Iff.rfl⟩
  case port05 =>
    obtain ⟨room, rfl⟩ := took
    exact ⟨fun same => absurd (congrArg portsGeneric05 same) (succ_ne_self _), Iff.rfl⟩
  case port2 | port34 =>
    obtain ⟨free, rfl⟩ := took
    exact ⟨fun same => free (by rw [← same]; simp), Iff.rfl⟩
  case port0 | port1 | port5 =>
    obtain ⟨free, room, rest, rfl⟩ := took
    exact ⟨fun same => absurd (congrArg portsGeneric same) (succ_ne_self _), Iff.rfl⟩

lemma tryIssue_of_taken (took : s.takePort uop.port = some taken) :
    s.tryIssue uop = (decide (¬ AluBusy uop taken), taken) := by
  simp only [RobContentionNehalem.tryIssue, took]

lemma tryIssue_of_full (full : s.takePort uop.port = none) : s.tryIssue uop = (false, s) := by
  simp only [RobContentionNehalem.tryIssue, full]

lemma accepts_iff : (s.tryIssue uop).1 = true ↔ s.PortFree uop.port ∧ ¬ AluBusy uop s := by
  rw [← takePort_isSome]
  cases took : s.takePort uop.port with
  | none => simp [tryIssue_of_full took]
  | some taken => simp [tryIssue_of_taken took, (takePort_marks uop took).2]

end Ports

end RobContentionNehalem

open RobContentionNehalem

/-! ## Distinct resources -/

structure IssueCycle where
  contention : RobContentionNehalem
  accepted : List UopPort

namespace IssueCycle

def start (now : ℕ) (s : RobContentionNehalem) : IssueCycle := ⟨s.initCycle now, []⟩

def step (cycle : IssueCycle) (uop : DynamicMicroOpNehalem) : IssueCycle where
  contention := cycle.contention.offer uop
  accepted :=
    if (cycle.contention.tryIssue uop).1 = true then uop.port :: cycle.accepted
    else cycle.accepted

def Distinct (cycle : IssueCycle) : Prop :=
  ∃ resources, List.Forall₂ UopPort.Compatible cycle.accepted resources ∧ resources.Nodup

/-- When a uop for port 0 or 5 was accepted or is offered, one that needs port 0, 1 or 5 finds its
ports and its unit free only while fewer than three such uops were accepted. -/
def Spaced (cycle : IssueCycle) (uop : DynamicMicroOpNehalem) : Prop :=
  cycle.contention.PortFree uop.port → ¬ AluBusy uop cycle.contention →
    uop.port = .port05 ∨ .port05 ∈ cycle.accepted → uop.port ≠ .port2 → uop.port ≠ .port34 →
      uses015 (cycle.accepted.count ·) < 3

structure Reserved (cycle : IssueCycle) : Prop where
  own : ∀ r : Resource, cycle.accepted.count r.own ≤ (cycle.contention.ports r.own).toNat
  generic : cycle.accepted.count .port0 + cycle.accepted.count .port1 +
    cycle.accepted.count .port5 + cycle.accepted.count .port015 ≤ cycle.contention.portsGeneric
  generic_le : cycle.contention.portsGeneric ≤ 3
  generic05 : cycle.accepted.count .port0 + cycle.accepted.count .port5 +
    cycle.accepted.count .port05 ≤ cycle.contention.portsGeneric05
  generic05_le : cycle.contention.portsGeneric05 ≤ 2

section Steps

variable {s taken : RobContentionNehalem} {accepted : List UopPort} {port : UopPort}
  {cycle : IssueCycle} {uop : DynamicMicroOpNehalem}

lemma Reserved.doIssue (reserved : Reserved ⟨s, accepted⟩) (uop : DynamicMicroOpNehalem) :
    Reserved ⟨s.doIssue uop, accepted⟩ := by
  rw [RobContentionNehalem.doIssue]
  split
  · exact ⟨reserved.own, reserved.generic, reserved.generic_le, reserved.generic05,
      reserved.generic05_le⟩
  · exact reserved

lemma Reserved.drop (reserved : Reserved ⟨s, port :: accepted⟩) : Reserved ⟨s, accepted⟩ := by
  have fewer : ∀ other, accepted.count other ≤ (port :: accepted).count other :=
    fun other => (List.sublist_cons_self port accepted).count_le other
  obtain ⟨own, generic, generic_le, generic05, generic05_le⟩ := reserved
  have bounds := And.intro (fewer .port0) <| And.intro (fewer .port1) <|
    And.intro (fewer .port5) <| And.intro (fewer .port05) (fewer .port015)
  simp only at generic generic05
  refine ⟨fun r => (fewer _).trans (own r), ?_, generic_le, ?_, generic05_le⟩
  all_goals
    simp only
    omega

lemma Reserved.own_cons {r : Resource}
    (own : accepted.count r.own ≤ (s.ports r.own).toNat) (free : s.ports port = false) :
    (port :: accepted).count r.own ≤ (update s.ports port true r.own).toNat := by
  rw [count_head]
  by_cases same : port = r.own
  · subst same
    rw [if_pos rfl, update_self]
    rw [free] at own
    simpa using own
  · rw [if_neg same, update_of_ne (Ne.symm same)]
    exact own

lemma Reserved.take (reserved : Reserved ⟨s, accepted⟩) (took : s.takePort port = some taken) :
    Reserved ⟨taken, port :: accepted⟩ := by
  obtain ⟨own, generic, generic_le, generic05, generic05_le⟩ := reserved
  cases port <;> simp only [takePort, ite_none_left_eq_some, some.injEq] at took
  case port015 | port05 =>
    obtain ⟨room, rfl⟩ := took
    refine ⟨fun r => ?_, ?_, ?_, ?_, ?_⟩
    · have this := own r
      cases r <;> simpa [Resource.own] using this
    all_goals
      simp at *
      omega
  case port2 | port34 =>
    obtain ⟨free, rfl⟩ := took
    refine ⟨fun r => Reserved.own_cons (own r) (by simpa using free), ?_, ?_, ?_, ?_⟩
    all_goals
      simp at *
      omega
  case port0 | port1 | port5 =>
    obtain ⟨free, room, rest, rfl⟩ := took
    refine ⟨fun r => Reserved.own_cons (own r) (by simpa using free), ?_, ?_, ?_, ?_⟩
    all_goals
      simp at *
      omega

lemma Reserved.step (reserved : Reserved cycle) (uop : DynamicMicroOpNehalem) :
    Reserved (cycle.step uop) := by
  cases took : cycle.contention.takePort uop.port with
  | none =>
    rw [IssueCycle.step, offer, tryIssue_of_full took]
    exact reserved
  | some taken =>
    have kept := reserved.take took
    rw [IssueCycle.step, offer, tryIssue_of_taken took]
    by_cases busy : AluBusy uop taken
    · simp only [busy, not_true_eq_false, decide_false, Bool.false_eq_true, if_false]
      exact kept.drop
    · simp only [busy, not_false_eq_true, decide_true, if_true]
      exact kept.doIssue uop

/-- The counters keep all resources but ports 0, 1 and 5 together from being given away twice. -/
lemma Reserved.distinct_iff (reserved : Reserved cycle) :
    Distinct cycle ↔ uses015 (cycle.accepted.count ·) ≤ 3 := by
  constructor
  · rintro ⟨resources, given, once⟩
    exact (spreads_iff.mp ⟨resources, given, List.nodup_iff_count_le_one.mp once⟩).shared015
  · intro whole
    have fits : Fits (fun _ => 1) (cycle.accepted.count ·) :=
      ⟨fun r => (reserved.own r).trans (Bool.toNat_le _),
        reserved.generic05.trans reserved.generic05_le, whole⟩
    obtain ⟨resources, given, loads⟩ := spreads_iff.mpr fits
    exact ⟨resources, given, List.nodup_iff_count_le_one.mpr loads⟩

lemma uses015_cons (port : UopPort) (accepted : List UopPort) :
    uses015 ((port :: accepted).count ·) =
      uses015 (accepted.count ·) + if port = .port2 ∨ port = .port34 then 0 else 1 := by
  cases port <;> simp [uses015] <;> omega

lemma Reserved.distinct_step (reserved : Reserved cycle) (distinct : Distinct cycle) :
    Distinct (cycle.step uop) ↔ Spaced cycle uop := by
  rw [(reserved.step uop).distinct_iff, IssueCycle.step, Spaced]
  rw [reserved.distinct_iff] at distinct
  by_cases accepted : (cycle.contention.tryIssue uop).1 = true
  · obtain ⟨free, idle⟩ := accepts_iff.mp accepted
    rw [if_pos accepted, uses015_cons]
    by_cases own : uop.port = .port2 ∨ uop.port = .port34
    · rw [if_pos own]
      exact iff_of_true distinct fun _ _ _ not2 not34 => absurd own (not_or.mpr ⟨not2, not34⟩)
    obtain ⟨not2, not34⟩ := not_or.mp own
    rw [if_neg own, succ_le_iff]
    refine ⟨fun room _ _ _ _ _ => room, fun spaced => ?_⟩
    by_cases any05 : uop.port = .port05 ∨ .port05 ∈ cycle.accepted
    · exact spaced free idle any05 not2 not34
    · obtain ⟨not05, none05⟩ := not_or.mp any05
      have generic := reserved.generic.trans_lt (free.generic not2 not34 not05)
      rw [← List.count_eq_zero] at none05
      rw [uses015, none05]
      exact generic
  · rw [if_neg accepted]
    refine iff_of_true distinct fun free idle => absurd (accepts_iff.mpr ⟨free, idle⟩) accepted

end Steps

/-- Each accepted uop has a resource of its own at every point of a cycle, exactly when the uops for
ports 0, 1 and 5 are spaced. -/
theorem distinct_iff_spaced (now : ℕ) (s : RobContentionNehalem)
    (uops : List DynamicMicroOpNehalem) :
    Throughout step Distinct (start now s) uops ↔
      Guarded step Spaced (start now s) uops := by
  have reserved : Reserved (start now s) :=
    ⟨fun r => zero_le _, le_rfl, zero_le _, le_rfl, zero_le _⟩
  refine throughout_iff_guarded (I := fun cycle => Reserved cycle ∧ Distinct cycle)
    (fun cycle uop sound spaced => ?_) (fun _ => And.right) (fun cycle uop sound crowded => ?_)
    ⟨reserved, reserved.distinct_iff.mpr (zero_le _)⟩ uops
  · exact ⟨sound.1.step uop, (sound.1.distinct_step sound.2).mpr spaced⟩
  · exact fun distinct => crowded ((sound.1.distinct_step sound.2).mp distinct)

def plain (port : UopPort) : DynamicMicroOpNehalem := ⟨port, .none, 0⟩

/-- Three uops for port 0, 1 or 5 and two for port 0 or 5 are all accepted. -/
theorem fiveAccepted_collide :
    let cycle := run step (start 5 create)
      [plain .port015, plain .port015, plain .port015, plain .port05, plain .port05]
    cycle.accepted = [.port05, .port05, .port015, .port015, .port015] ∧ ¬ Distinct cycle := by
  refine ⟨by decide, ?_⟩
  rintro ⟨resources, given, once⟩
  have fits := spreads_iff.mp ⟨resources, given, List.nodup_iff_count_le_one.mp once⟩
  exact absurd fits.shared015 (by decide)

end IssueCycle

/-! ## Refused uops -/

namespace RobContentionNehalem

/-- What the timer sees of an offer: whether the uop is accepted, and `noMore` afterwards. -/
def respond (s : RobContentionNehalem) (uop : DynamicMicroOpNehalem) :
    (Bool × Bool) × RobContentionNehalem :=
  (((s.tryIssue uop).1, (s.offer uop).noMore), s.offer uop)

def acceptedOf : RobContentionNehalem → List DynamicMicroOpNehalem → List DynamicMicroOpNehalem
  | _, [] => []
  | s, uop :: uops =>
    if (s.tryIssue uop).1 = true then uop :: acceptedOf (s.offer uop) uops
    else acceptedOf (s.offer uop) uops

/-- No refusal changes the state, and the answers are those that the timer gets when it leaves the
refused uops out. -/
structure Transparent (s : RobContentionNehalem) (uops : List DynamicMicroOpNehalem) : Prop where
  unchanged : Guarded offer
    (fun s uop => (s.tryIssue uop).1 = false → (s.tryIssue uop).2 = s) s uops
  answers : answers respond s (acceptedOf s uops) =
    (answers respond s uops).filter (·.1)
  noMore : (run offer s (acceptedOf s uops)).noMore = (run offer s uops).noMore

section Refusals

variable {s : RobContentionNehalem} {uop : DynamicMicroOpNehalem}
  {uops : List DynamicMicroOpNehalem}

lemma tryIssue_unchanged_iff : ((s.tryIssue uop).1 = false → (s.tryIssue uop).2 = s) ↔
    (s.PortFree uop.port → ¬ AluBusy uop s) := by
  rw [← takePort_isSome]
  cases took : s.takePort uop.port with
  | none => simp [tryIssue_of_full took]
  | some taken =>
    obtain ⟨marked, busy⟩ := takePort_marks uop took
    simp [tryIssue_of_taken took, busy, marked]

lemma transparent_of_unchanged (unchanged : Runs.Guarded offer
      (fun s uop => (s.tryIssue uop).1 = false → (s.tryIssue uop).2 = s) s uops) :
    Transparent s uops := by
  induction uops generalizing s with
  | nil => exact ⟨trivial, rfl, rfl⟩
  | cons uop uops ih =>
    obtain ⟨-, answers, more⟩ := ih unchanged.2
    refine ⟨unchanged, ?_, ?_⟩
    all_goals
      rw [acceptedOf]
      cases accepted : (s.tryIssue uop).1 with
      | true => simp [Runs.answers, respond, accepted, answers, more]
      | false =>
        have same : s.offer uop = s := by simpa [offer, accepted] using unchanged.1 accepted
        rw [same] at answers more
        simp [Runs.answers, respond, accepted, same, answers, more]

/-- Refused uops are not noticed, exactly when no uop is offered while there is a port for it and
its unit is in use. -/
theorem transparent_iff (s : RobContentionNehalem) (uops : List DynamicMicroOpNehalem) :
    Transparent s uops ↔
      Guarded offer (fun s uop => s.PortFree uop.port → ¬ AluBusy uop s) s uops := by
  rw [← guarded_iff (I := fun _ => True) (fun _ _ _ => trivial)
    (fun _ _ _ => tryIssue_unchanged_iff) trivial]
  exact ⟨Transparent.unchanged, transparent_of_unchanged⟩

/-- The second and third division of a cycle are refused and keep their ports, so the uop for port 1
is refused as well and `noMore` holds. -/
theorem divisions_noticed :
    let start := create.initCycle 5
    let division : DynamicMicroOpNehalem := ⟨.port015, .trig, 9⟩
    let before := [IssueCycle.plain .port2, IssueCycle.plain .port34, division]
    let after := [IssueCycle.plain .port1]
    (answers respond start (before ++ [division, division] ++ after)).map (·.1) =
        [true, true, true, false, false, false] ∧
      (answers respond start (before ++ after)).map (·.1) = [true, true, true, true] ∧
      (run offer start (before ++ [division, division])).noMore = true ∧
      (run offer start before).noMore = false ∧
      ¬ Transparent start (before ++ [division, division]) := by
  refine ⟨by decide, by decide, by decide, by decide, fun transparent => ?_⟩
  exact absurd transparent.noMore (by decide)

end Refusals

end RobContentionNehalem

end Sniper.Rob
