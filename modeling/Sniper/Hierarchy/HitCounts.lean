import Sniper.Hierarchy.SharedRuns

/-!
# What the hit counters count

`L2Hits` is declared as the hit count for leader sets, and `reconfigure` decides by it which ways
are worth keeping. The runs below carry along the flex lookups that have hit. The counters of a
module count all of them, in leader sets and in the others, so they are the counts of the leader
sets only as long as no other set is hit.
-/

namespace Sniper

open FlexHit Runs

structure Recorded (cfg : HierConfig) where
  hier : Hier cfg
  hits : List (FlexHit (cfg.geom .l2).assoc)

namespace Recorded

variable {cfg : HierConfig} {s : Recorded cfg}

def new (cfg : HierConfig) : Recorded cfg := ⟨Hier.new cfg, []⟩

def step (s : Recorded cfg) (e : L2Event) : Recorded cfg :=
  ⟨s.hier.l2Step e, s.hits ++ ((s.hier.cache .l2).flexHit e).toList⟩

/-- The number of flex lookups that have hit in a leader set of module `m`, in way `w`. -/
def leaderHits (s : Recorded cfg) (m : Nat) (w : Fin (cfg.geom .l2).assoc) : Nat :=
  (s.hits.filter FlexHit.isLeader).countP (FlexHit.isAt m w)

def HitsLead (s : Recorded cfg) (e : L2Event) : Prop :=
  ∀ f ∈ (s.hier.cache .l2).flexHit e, f.isLeader = true

def Counted (s : Recorded cfg) : Prop :=
  ∀ m w, (s.hier.cache .l2).l2Hits m w = s.hits.countP (FlexHit.isAt m w)

lemma Counted.step (counted : s.Counted) (e : L2Event) : (s.step e).Counted := by
  intro m w
  have counts : ((s.hier.l2Step e).cache .l2).l2Hits m w = (s.hier.cache .l2).l2Hits m w +
      ((s.hier.cache .l2).flexHit e).toList.countP (isAt m w) := by
    by_cases he : e = .reconfigure
    · subst he
      rw [Hier.l2Step, s.hier.reconfigure_rows.2]
      rfl
    · rw [Hier.l2Step_cache he]
      exact Cache.apply_l2Hits _ e m w
  rw [Recorded.step, counts, counted m w, List.countP_append]

lemma hits_lead_iff (s : Recorded cfg) (es : List L2Event) :
    (∀ f ∈ (run step s es).hits, f.isLeader = true) ↔
      (∀ f ∈ s.hits, f.isLeader = true) ∧ Guarded step HitsLead s es := by
  induction es generalizing s with
  | nil => exact (and_iff_left trivial).symm
  | cons e es ih =>
    rw [run_cons, ih, Guarded, ← and_assoc]
    refine and_congr_left fun _ => ?_
    simp only [step, List.mem_append, Option.mem_toList, or_imp, forall_and]
    exact Iff.rfl

lemma leaderHits_eq_iff (s : Recorded cfg) : (∀ m w, s.hits.countP (isAt m w) = s.leaderHits m w) ↔
      ∀ f ∈ s.hits, f.isLeader = true := by
  constructor
  · intro same f hit
    have split := List.countP_eq_countP_filter_add s.hits (isAt f.module f.way) isLeader
    by_contra follower
    have counted : 0 < (s.hits.filter fun f => !f.isLeader).countP (isAt f.module f.way) :=
      List.countP_pos_iff.mpr ⟨f, List.mem_filter.mpr ⟨hit, by simpa using follower⟩,
        by simp [isAt]⟩
    have := same f.module f.way
    rw [leaderHits] at this
    omega
  · intro lead m w
    rw [leaderHits, List.filter_eq_self.mpr lead]

/-- `L2Hits` holds the hits of the leader sets exactly as long as no flex lookup hits in another
set. -/
theorem l2Hits_eq_leaderHits_iff (cfg : HierConfig) (es : List L2Event) :
    let s := run step (new cfg) es
    (∀ m w, (s.hier.cache .l2).l2Hits m w = s.leaderHits m w) ↔
      Guarded step HitsLead (new cfg) es := by
  intro s
  have counted : s.Counted :=
    run_invariant (I := Counted) (fun _ e counted => counted.step e) (fun _ _ => rfl) es
  have lead := hits_lead_iff (new cfg) es
  rw [and_iff_right (by simp [new])] at lead
  rw [← lead, ← leaderHits_eq_iff]
  exact forall₂_congr fun m w => by rw [counted m w]

/-- A line of set 1, which is not a leader set, is filled and looked up. -/
theorem follower_hit_counted :
    let s := run step (new twoCores) [.fill 0x40 .shared, .lookup 0x40]
    (s.hier.cache .l2).l2Hits 0 0 = 1 ∧ s.leaderHits 0 0 = 0 := by
  decide +kernel

end Recorded

end Sniper
