import Sniper.Cache.Placement
import Sniper.Lib.Recency
import Sniper.Lib.Runs

/-!
# Runs of one cache set

A set on its own, as the alternative tag directories use it: an access looks its tag up, and
either moves the way it finds to the most recent position or fills the tag in. As long as no
block is being upgraded, the ranks are a permutation of the ways and the set keeps the stack of
its latest tags.
-/

namespace Sniper

open Function Recency

abbrev Tag := { tag : IntPtr // tag ≠ noTag }

abbrev SettledState := { cstate : CState // cstate ≠ .sharedUpgrading }

namespace CacheSet

variable {A : Nat}

def held (s : CacheSet A) (i : Fin A) : Option IntPtr :=
  if (s.blocks i).isValid then some (s.blocks i).tag else none

lemma held_eq_some {s : CacheSet A} {i : Fin A} {tag : IntPtr} (named : tag ≠ noTag) :
    s.held i = some tag ↔ (s.blocks i).tag = tag := by
  by_cases valid : (s.blocks i).isValid = true
  · rw [held, if_pos valid, Option.some.injEq]
  · rw [held, if_neg valid]
    rw [CacheBlockInfo.isValid_iff, not_not] at valid
    rw [valid]
    exact iff_of_false (Option.some_ne_none _).symm named.symm

lemma held_eq_none {s : CacheSet A} {i : Fin A} :
    s.held i = none ↔ (s.blocks i).isValid = false := by
  rw [held, ite_eq_right_iff]
  simp

lemma held_setBlock (s : CacheSet A) (i : Fin A) {tag : IntPtr} (named : tag ≠ noTag)
    (cstate : CState) : (s.setBlock i ⟨tag, cstate⟩).held = update s.held i (some tag) := by
  funext j
  by_cases same : j = i
  · subst same
    rw [update_self, held_eq_some named, setBlock_self]
  · rw [update_of_ne same, held, held, setBlock_of_ne _ _ same]

structure Permuted (s : CacheSet A) : Prop where
  injective : Function.Injective s.lruBits
  bounded : ∀ i, s.lruBits i < A

lemma Permuted.equiv {s : CacheSet A} (permuted : s.Permuted) :
    ∃ σ : Equiv.Perm (Fin A), ∀ i, s.lruBits i = σ i := by
  let rank (i : Fin A) : Fin A := ⟨s.lruBits i, permuted.bounded i⟩
  have injective : Function.Injective rank := fun i j same =>
    permuted.injective (congrArg Fin.val same)
  exact ⟨Equiv.ofBijective rank (Finite.injective_iff_bijective.mp injective), fun i => rfl⟩

lemma Permuted.moveToMRU {s : CacheSet A} (permuted : s.Permuted) (w : Fin A) :
    (s.moveToMRU w).Permuted := by
  refine ⟨fun i j same => ?_, fun i => ?_⟩
  · exact touch_injOn (S := Set.univ) (fun _ _ => rfl) (Set.mem_univ w)
      permuted.injective.injOn (Set.mem_univ i) (Set.mem_univ j) same
  · change touch s.lruBits (fun _ => true) w i < A
    have below := permuted.bounded i
    have bound := permuted.bounded w
    rw [touch]
    split
    · omega
    · split
      · next younger =>
        have : s.lruBits i < s.lruBits w := by simpa using younger
        omega
      · exact below

lemma Permuted.rejuvenates {s : CacheSet A} (permuted : s.Permuted) (w : Fin A) :
    LruStack.Rejuvenates (fun u v => s.lruBits u < s.lruBits v)
      (fun u v => (s.moveToMRU w).lruBits u < (s.moveToMRU w).lruBits v) s.held w := by
  have all : ∀ v ∈ (Set.univ : Set (Fin A)), (fun _ : Fin A => true) v = true := fun _ _ => rfl
  refine ⟨fun v other _ => ?_, fun u v hu hv _ _ younger => ?_⟩
  · have front := touch_pos all (Set.mem_univ w) permuted.injective.injOn (Set.mem_univ v) other
    have first : (s.moveToMRU w).lruBits w = 0 := if_pos rfl
    rwa [← first] at front
  · exact (touch_lt_touch all (Set.mem_univ w) permuted.injective.injOn (Set.mem_univ u)
      (Set.mem_univ v) hu hv).mpr younger

variable [NeZero A]

/-- An access of an alternative tag directory: whether it hits, and the set after it. -/
def access (s : CacheSet A) (tag : IntPtr) (cstate : CState) : Bool × CacheSet A :=
  match s.find tag with
  | some i => (true, s.updateReplacementIndex i)
  | none => (false, (s.insert ⟨tag, cstate⟩).set)

lemma replacementWay_cases (s : CacheSet A) : (s.blocks s.replacementWay).isValid = false ∨
      (∀ i, (s.blocks i).isValid = true) ∧
        s.replacementWay = eldest s.lruBits s.isValidReplacement 0 := by
  unfold replacementWay
  split
  · next i found => exact .inl (by simpa using Scan.up_holds found)
  · next none => exact .inr ⟨fun i => by simpa using Scan.up_eq_none.mp none i, rfl⟩

omit [NeZero A] in
structure Keeps (s : CacheSet A) (stack : List IntPtr) : Prop where
  permuted : s.Permuted
  settled : ∀ i, s.isValidReplacement i = true
  listed : ∃ slots, LruStack.Listing (fun u v => s.lruBits u < s.lruBits v) s.held stack slots

variable {s : CacheSet A} {stack : List IntPtr} {tag : IntPtr}

omit [NeZero A] in
lemma Keeps.find_isSome (keeps : s.Keeps stack) (named : tag ≠ noTag) :
    (s.find tag).isSome = true ↔ tag ∈ stack := by
  obtain ⟨slots, listing⟩ := keeps.listed
  rw [listing.mem_iff, Option.isSome_iff_ne_none, ne_eq, find_eq_none]
  push Not
  simp only [held_eq_some named]

omit [NeZero A] in
lemma Keeps.hit (keeps : s.Keeps stack) (named : tag ≠ noTag) {w : Fin A}
    (found : s.find tag = some w) :
    (s.updateReplacementIndex w).Keeps (LruStack.access A stack tag) := by
  obtain ⟨slots, listing⟩ := keeps.listed
  have holds : s.held w = some tag := (held_eq_some named).mpr (find_tag found)
  refine ⟨keeps.permuted.moveToMRU w, keeps.settled, ?_⟩
  have moved := listing.hit (keeps.permuted.rejuvenates w) holds
  rwa [← holds, update_eq_self, Fintype.card_fin] at moved

lemma Keeps.eldest (keeps : s.Keeps stack) (v : Fin A) :
    ¬ s.lruBits (eldest s.lruBits s.isValidReplacement 0) < s.lruBits v :=
  not_lt.mpr (le_eldest (keeps.settled v))

lemma Keeps.insert (keeps : s.Keeps stack) (named : tag ≠ noTag) {cstate : CState}
    (settled : cstate ≠ .sharedUpgrading) (new : tag ∉ stack) :
    (s.insert ⟨tag, cstate⟩).set.Keeps (LruStack.access A stack tag) := by
  obtain ⟨slots, listing⟩ := keeps.listed
  have moved := keeps.permuted.rejuvenates s.replacementWay
  have ranks := keeps.permuted.moveToMRU s.replacementWay
  have placed : (s.insert ⟨tag, cstate⟩).set.held = update s.held s.replacementWay (some tag) :=
    held_setBlock (s.moveToMRU s.replacementWay) _ named cstate
  have listed : ∃ slots, LruStack.Listing (fun u v =>
        (s.moveToMRU s.replacementWay).lruBits u < (s.moveToMRU s.replacementWay).lruBits v)
      (update s.held s.replacementWay (some tag))
      (LruStack.access (Fintype.card (Fin A)) stack tag) slots := by
    obtain empty | ⟨full, oldest⟩ := s.replacementWay_cases
    · exact listing.fill moved (held_eq_none.mpr empty) new
    · refine listing.replace moved (fun v => ?_) (fun v => oldest ▸ keeps.eldest v) new
      rw [ne_eq, held_eq_none, full v]
      exact Bool.noConfusion
  refine ⟨⟨ranks.injective, ranks.bounded⟩, fun i => ?_, ?_⟩
  · by_cases same : i = s.replacementWay
    · subst same
      simpa [CacheSet.insert, getReplacementIndex, place, isValidReplacement] using settled
    · have kept := keeps.settled i
      simpa [CacheSet.insert, getReplacementIndex, place, isValidReplacement, same] using kept
  · rw [placed]
    rw [Fintype.card_fin] at listed
    exact listed

lemma Keeps.access (keeps : s.Keeps stack) (named : tag ≠ noTag) {cstate : CState}
    (settled : cstate ≠ .sharedUpgrading) :
    (s.access tag cstate).1 = decide (tag ∈ stack) ∧
      (s.access tag cstate).2.Keeps (LruStack.access A stack tag) := by
  have found := keeps.find_isSome named
  cases lookup : s.find tag with
  | some w =>
    rw [lookup] at found
    simp only [CacheSet.access, lookup, found.mp rfl, decide_true, true_and]
    exact keeps.hit named lookup
  | none =>
    have new : tag ∉ stack := fun held => by simp [lookup] at found; exact found held
    simp only [CacheSet.access, lookup, new, decide_false, true_and]
    exact keeps.insert named settled new

/-! ### Runs -/

/-- What is done to a set on its own: accesses and invalidations. -/
inductive Operation where
  | access (tag : Tag) (cstate : SettledState)
  | invalidate (tag : Tag)

def apply (s : CacheSet A) : Operation → CacheSet A
  | .access tag cstate => (s.access tag cstate).2
  | .invalidate tag => s.invalidate tag

omit [NeZero A] in
structure Sound (s : CacheSet A) : Prop where
  permuted : s.Permuted
  unique : s.Unique

omit [NeZero A] in
lemma new_permuted (small : A ≤ 255) (leader : Bool) : (new A leader).Permuted := by
  have rank : ∀ i : Fin A, (new A leader).lruBits i = i := fun i =>
    Nat.mod_eq_of_lt (by have := i.isLt; omega)
  refine ⟨fun i j same => Fin.ext ?_, fun i => ?_⟩
  · rwa [rank, rank] at same
  · rw [rank]
    exact i.isLt

omit [NeZero A] in
lemma new_sound (small : A ≤ 255) (leader : Bool) : (new A leader).Sound :=
  ⟨new_permuted small leader, fun i j valid => by simp [new] at valid⟩

lemma Sound.access (sound : s.Sound) (tag : IntPtr) (cstate : CState) :
    (s.access tag cstate).2.Sound := by
  cases lookup : s.find tag with
  | some w =>
    simp only [CacheSet.access, lookup]
    exact ⟨sound.permuted.moveToMRU w, sound.unique⟩
  | none =>
    simp only [CacheSet.access, lookup]
    have moved := sound.permuted.moveToMRU s.replacementWay
    refine ⟨⟨moved.injective, moved.bounded⟩, ?_⟩
    have kept : (s.moveToMRU s.replacementWay).Unique := sound.unique
    have absent : ∀ i, (s.blocks i).tag ≠ tag := find_eq_none.mp lookup
    exact kept.setBlock (b := ⟨tag, cstate⟩) fun _ i _ => absent i

omit [NeZero A] in
lemma Sound.invalidate (sound : s.Sound) (tag : IntPtr) : (s.invalidate tag).Sound := by
  unfold CacheSet.invalidate
  split
  · exact ⟨⟨sound.permuted.injective, sound.permuted.bounded⟩,
      sound.unique.setBlock fun valid => by simp at valid⟩
  · exact sound

lemma Sound.apply (sound : s.Sound) (op : Operation) : (s.apply op).Sound := by
  cases op with
  | access tag cstate => exact sound.access tag cstate
  | invalidate tag => exact sound.invalidate tag

omit [NeZero A] in
lemma new_keeps (small : A ≤ 255) (leader : Bool) : (new A leader).Keeps [] where
  permuted := new_permuted small leader
  settled _ := rfl
  listed := ⟨[], ⟨.nil, fun w => by simp [held, new], rfl, .nil⟩⟩

lemma run_keeps (small : A ≤ 255) (leader : Bool) (accesses : List (Tag × SettledState)) :
    (Runs.run apply (new A leader) (accesses.map fun a => .access a.1 a.2)).Keeps
      ((accesses.map fun a => a.1.val).dedup.reverse.take A) := by
  obtain ⟨size, rfl⟩ := Nat.exists_eq_succ_of_ne_zero (NeZero.ne A)
  rw [← LruStack.foldl_access]
  induction accesses using List.reverseRecOn with
  | nil => exact new_keeps small leader
  | append_singleton accesses last ih =>
    rw [List.map_append, Runs.run_append, List.map_append, List.foldl_append]
    exact (ih.access last.1.2 last.2.2).2

/-- After every run the ranks are a permutation of the ways and no tag is in two ways; after a
run of accesses alone the set holds exactly its latest distinct tags, as many as there are ways
for them. -/
theorem permuted_unique_latest (small : A ≤ 255) (leader : Bool) (ops : List Operation) :
    let s := Runs.run apply (new A leader) ops
    (∃ σ : Equiv.Perm (Fin A), ∀ i, s.lruBits i = σ i) ∧
      (∀ (tag : Tag) i j, (s.blocks i).tag = tag → (s.blocks j).tag = tag → i = j) ∧
      ∀ accesses : List (Tag × SettledState), ops = accesses.map (fun a => .access a.1 a.2) →
        ∀ tag : Tag, (∃ i, (s.blocks i).tag = tag) ↔
          tag.val ∈ (accesses.map fun a => a.1.val).dedup.reverse.take A := by
  intro s
  have sound : s.Sound :=
    Runs.run_invariant (fun _ op sound => sound.apply op) (new_sound small leader) ops
  refine ⟨sound.permuted.equiv, fun tag i j hi hj => ?_, ?_⟩
  · refine sound.unique i j ?_ (hi.trans hj.symm)
    rw [CacheBlockInfo.isValid_iff, hi]
    exact tag.2
  · rintro accesses only tag
    obtain ⟨slots, listing⟩ := (only ▸ run_keeps small leader accesses : s.Keeps _).listed
    rw [listing.mem_iff]
    simp only [held_eq_some tag.2]

def firstTag : Tag := ⟨1, by decide⟩

def secondTag : Tag := ⟨2, by decide⟩

def thirdTag : Tag := ⟨3, by decide⟩

def settledModified : SettledState := ⟨.modified, by decide⟩

/-- Of three tags two ways hold the latest two. -/
theorem two_ways_hold_latest :
    let s := Runs.run apply (new 2 false)
      ([firstTag, secondTag, firstTag, thirdTag].map fun tag => .access tag settledModified)
    (∃ i, (s.blocks i).tag = firstTag) ∧ ¬ ∃ i, (s.blocks i).tag = secondTag := by
  have latest := (permuted_unique_latest (A := 2) (by decide) false _).2.2
    ([firstTag, secondTag, firstTag, thirdTag].map fun tag => (tag, settledModified)) rfl
  exact ⟨(latest firstTag).mpr (by decide),
    fun held => absurd ((latest secondTag).mp held) (by decide)⟩

end CacheSet

end Sniper
