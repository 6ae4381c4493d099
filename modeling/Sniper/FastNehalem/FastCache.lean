import Sniper.Cache.LruSet

/-!
# The fast-forward cache

A set of the fast cache model stamps a way whenever it is used and replaces the way with the
smallest stamp. Stamps are natural numbers: a set would have to be used 2^64 times before the
counter of the source wraps, and the largest 64-bit number, from which the search for a replacement
starts, is above every stamp.

Fresh memory is all zero, so a way with stamp zero has never been filled.
-/

namespace Sniper.FastNehalem

open Function

structure CacheSet (assoc : Nat) where
  tags : Fin assoc → IntPtr
  lru : Fin assoc → Nat
  lruMax : Nat

namespace CacheSet

variable {assoc : Nat}

def zero (assoc : Nat) : CacheSet assoc := ⟨fun _ => 0, fun _ => 0, 0⟩

def older (lru : Fin assoc → Nat) (best : Fin assoc × Option Nat) (idx : Fin assoc) :
    Fin assoc × Option Nat :=
  if best.2.all (lru idx < ·) then (idx, some (lru idx)) else best

def stamp (s : CacheSet assoc) (idx : Fin assoc) : CacheSet assoc :=
  { s with lru := update s.lru idx (s.lruMax + 1), lruMax := s.lruMax + 1 }

def fill (s : CacheSet assoc) (idx : Fin assoc) (tag : IntPtr) : CacheSet assoc :=
  { s with tags := update s.tags idx tag }.stamp idx

variable [NeZero assoc]

def idxMin (s : CacheSet assoc) : Fin assoc :=
  ((List.finRange assoc).foldl (older s.lru) (0, none)).1

/-- Whether the tag is in the set, and the set after the access. -/
def find (s : CacheSet assoc) (tag : IntPtr) : Bool × CacheSet assoc :=
  match Scan.up fun idx => s.tags idx == tag with
  | some idx => (true, s.stamp idx)
  | none => (false, s.fill s.idxMin tag)

omit [NeZero assoc] in
lemma foldl_older (lru : Fin assoc → Nat) (l : List (Fin assoc)) (best : Fin assoc × Option Nat)
    (fits : ∀ m, best.2 = some m → m = lru best.1) :
    let r := l.foldl (older lru) best
    (∀ m, r.2 = some m → m = lru r.1) ∧ (∀ m, best.2 = some m → ∃ m', r.2 = some m' ∧ m' ≤ m) ∧
      ∀ idx ∈ l, ∃ m, r.2 = some m ∧ m ≤ lru idx := by
  induction l generalizing best with
  | nil => exact ⟨fits, fun m found => ⟨m, found, le_rfl⟩, by simp⟩
  | cons idx l ih =>
    rw [List.foldl_cons]
    by_cases smaller : best.2.all (lru idx < ·) = true
    · have next : older lru best idx = (idx, some (lru idx)) := if_pos smaller
      rw [next]
      obtain ⟨fits', kept, rest⟩ := ih (idx, some (lru idx)) fun m found =>
        (Option.some.inj found).symm
      obtain ⟨m', found, least⟩ := kept (lru idx) rfl
      refine ⟨fits', fun m before => ⟨m', found, ?_⟩,
        List.forall_mem_cons.mpr ⟨⟨m', found, least⟩, rest⟩⟩
      have : lru idx < m := by simpa [before] using smaller
      omega
    · have next : older lru best idx = best := if_neg smaller
      rw [next]
      obtain ⟨fits', kept, rest⟩ := ih best fits
      refine ⟨fits', kept, List.forall_mem_cons.mpr ⟨?_, rest⟩⟩
      cases before : best.2 with
      | none => simp [before] at smaller
      | some m =>
        obtain ⟨m', found, least⟩ := kept m before
        have : ¬ lru idx < m := by simpa [before] using smaller
        exact ⟨m', found, by omega⟩

lemma idxMin_le (s : CacheSet assoc) (idx : Fin assoc) : s.lru s.idxMin ≤ s.lru idx := by
  obtain ⟨same, -, least⟩ := foldl_older s.lru (List.finRange assoc) (0, none) (by simp)
  obtain ⟨m, found, le⟩ := least idx (List.mem_finRange idx)
  exact same m found ▸ le

/-! ### The stack of a fast set -/

omit [NeZero assoc]

def held (s : CacheSet assoc) (idx : Fin assoc) : Option IntPtr :=
  if s.lru idx = 0 then none else some (s.tags idx)

structure Keeps (s : CacheSet assoc) (stack : List IntPtr) : Prop where
  bounded : ∀ idx, s.lru idx ≤ s.lruMax
  empty : ∀ idx, s.lru idx = 0 → s.tags idx = 0
  listed : ∃ slots, LruStack.Listing (fun u v => s.lru v < s.lru u) s.held stack slots

variable {s : CacheSet assoc} {stack : List IntPtr} {tag : IntPtr}

lemma zero_keeps : (zero assoc).Keeps [] where
  bounded _ := le_rfl
  empty _ _ := rfl
  listed := ⟨[], ⟨.nil, fun w => by simp [held, zero], rfl, .nil⟩⟩

lemma Keeps.held_eq_some (keeps : s.Keeps stack) (nonzero : tag ≠ 0) (idx : Fin assoc) :
    s.held idx = some tag ↔ s.tags idx = tag := by
  by_cases unused : s.lru idx = 0
  · rw [held, if_pos unused, keeps.empty idx unused]
    exact iff_of_false (Option.some_ne_none _).symm nonzero.symm
  · rw [held, if_neg unused, Option.some.injEq]

lemma Keeps.rejuvenates (keeps : s.Keeps stack) (idx : Fin assoc) (tag : IntPtr) :
    LruStack.Rejuvenates (fun u v => s.lru v < s.lru u)
      (fun u v => (s.fill idx tag).lru v < (s.fill idx tag).lru u) s.held idx := by
  have stamped : (s.fill idx tag).lru = update s.lru idx (s.lruMax + 1) := rfl
  refine ⟨fun v other _ => ?_, fun u v hu hv _ _ younger => ?_⟩
  · rw [stamped, update_self, update_of_ne other]
    exact Nat.lt_succ_of_le (keeps.bounded v)
  · rw [stamped, update_of_ne hu, update_of_ne hv]
    exact younger

lemma held_fill (s : CacheSet assoc) (idx : Fin assoc) (tag : IntPtr) :
    (s.fill idx tag).held = update s.held idx (some tag) := by
  funext v
  by_cases same : v = idx
  · subst same
    simp [held, fill, stamp]
  · simp [held, fill, stamp, update_of_ne same]

lemma Keeps.fill (keeps : s.Keeps stack) {idx : Fin assoc} (listed : ∃ slots, LruStack.Listing
      (fun u v => (s.fill idx tag).lru v < (s.fill idx tag).lru u) (update s.held idx (some tag))
      (LruStack.access (Fintype.card (Fin assoc)) stack tag) slots) :
    (s.fill idx tag).Keeps (LruStack.access assoc stack tag) := by
  refine ⟨fun v => ?_, fun v unused => ?_, ?_⟩
  · change update s.lru idx (s.lruMax + 1) v ≤ s.lruMax + 1
    rw [update_apply]
    split
    · exact le_rfl
    · exact Nat.le_succ_of_le (keeps.bounded v)
  · change update s.lru idx (s.lruMax + 1) v = 0 at unused
    change update s.tags idx tag v = 0
    rw [update_apply] at unused ⊢
    split at unused
    · cases unused
    · next other => rw [if_neg other, keeps.empty v unused]
  · rw [held_fill]
    rwa [Fintype.card_fin] at listed

variable [NeZero assoc]

lemma Keeps.find (keeps : s.Keeps stack) (nonzero : tag ≠ 0) :
    (s.find tag).1 = decide (tag ∈ stack) ∧
      (s.find tag).2.Keeps (LruStack.access assoc stack tag) := by
  obtain ⟨slots, listing⟩ := keeps.listed
  have present : tag ∈ stack ↔ ∃ idx, s.tags idx = tag := by
    rw [listing.mem_iff]
    exact exists_congr fun idx => keeps.held_eq_some nonzero idx
  cases lookup : Scan.up fun idx => s.tags idx == tag with
  | some idx =>
    have same : s.tags idx = tag := by simpa using Scan.up_holds lookup
    have stamped : s.stamp idx = s.fill idx tag := by rw [CacheSet.fill, ← same, update_eq_self]
    simp only [CacheSet.find, lookup, present.mpr ⟨idx, same⟩, decide_true, true_and]
    rw [stamped]
    exact keeps.fill (listing.hit (keeps.rejuvenates idx tag)
      ((keeps.held_eq_some nonzero idx).mpr same))
  | none =>
    have new : tag ∉ stack := by
      rw [present]
      rintro ⟨idx, same⟩
      simpa [same] using Scan.up_eq_none.mp lookup idx
    simp only [CacheSet.find, lookup, new, decide_false, true_and]
    have moved := keeps.rejuvenates s.idxMin tag
    -- A way that was never filled has the smallest stamp; otherwise the oldest way has it.
    by_cases unused : s.lru s.idxMin = 0
    · exact keeps.fill (listing.fill moved (if_pos unused) new)
    · refine keeps.fill (listing.replace moved (fun v => ?_) (fun v => ?_) new)
      · have := s.idxMin_le v
        rw [held, if_neg (by omega)]
        exact Option.some_ne_none _
      · exact not_lt.mpr (s.idxMin_le v)

end CacheSet

abbrev AccessTag := { tag : IntPtr // tag ≠ 0 ∧ tag ≠ noTag }

/-- The fast set and the set of an alternative tag directory, which fills in modified blocks, hit
at the same accesses. -/
theorem find_hits_eq_access_hits {assoc : Nat} [NeZero assoc] (small : assoc ≤ 255)
    (accesses : List AccessTag) :
    Runs.answers (fun s (tag : AccessTag) => s.find tag) (CacheSet.zero assoc) accesses =
      Runs.answers (fun s (tag : AccessTag) => s.access tag .modified)
        (Sniper.CacheSet.new assoc false) accesses := by
  refine Runs.answers_eq (R := fun s t => ∃ stack, s.Keeps stack ∧ t.Keeps stack) ?_
    ⟨[], CacheSet.zero_keeps, Sniper.CacheSet.new_keeps small false⟩ accesses
  rintro s t tag ⟨stack, fast, detailed⟩
  obtain ⟨hit, next⟩ := fast.find tag.2.1
  have settled : CState.modified ≠ .sharedUpgrading := by decide
  obtain ⟨hit', next'⟩ := detailed.access tag.2.2 settled
  exact ⟨hit.trans hit'.symm, _, next, next'⟩

/-- Two ways and three tags: the second use of the first tag hits, that of the second does not. -/
theorem two_ways_hits :
    Runs.answers (fun s (tag : AccessTag) => Sniper.CacheSet.access s tag .modified)
      (Sniper.CacheSet.new 2 false)
      [⟨1, by decide⟩, ⟨2, by decide⟩, ⟨1, by decide⟩, ⟨3, by decide⟩, ⟨2, by decide⟩] =
      [false, false, true, false, false] := by
  rw [← find_hits_eq_access_hits (by decide)]
  decide +kernel

end Sniper.FastNehalem
