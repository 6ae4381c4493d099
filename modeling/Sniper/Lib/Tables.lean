import Mathlib.Data.List.Nodup
import Mathlib.Logic.Function.Basic

/-!
# Tables

Partial maps that are kept in two copies, in a cache over a memory, or in slots with a list of what
no longer fits.
-/

/-!
## Two partial maps that are inverse to each other

A matching between two kinds of things is kept twice, as a partial map in either direction. The
maps stay inverse when a pair of free things is linked and when a linked pair is taken apart.
-/

namespace Matching

open Function

variable {α β : Type*} {f : α → Option β} {g : β → Option α} {a a' : α} {b b' : β}

def Inverse (f : α → Option β) (g : β → Option α) : Prop := ∀ a b, f a = some b ↔ g b = some a

lemma Inverse.left_unique (inverse : Inverse f g) (here : f a = some b) (there : f a' = some b) :
    a = a' :=
  Option.some.inj (((inverse a b).mp here).symm.trans ((inverse a' b).mp there))

lemma Inverse.right_unique (inverse : Inverse f g) (here : g b = some a)
    (there : g b' = some a) : b = b' :=
  Option.some.inj (((inverse a b).mpr here).symm.trans ((inverse a b').mpr there))

lemma inverse_none : Inverse (fun _ : α => (none : Option β)) (fun _ => none) := by
  intro a b
  constructor <;> exact fun linked => absurd linked (by simp)

variable [DecidableEq α] [DecidableEq β]

lemma Inverse.unlink (inverse : Inverse f g) (linked : f a = some b) :
    Inverse (update f a none) (update g b none) := by
  intro a' b'
  by_cases left : a' = a
  · subst left
    rw [update_self]
    by_cases right : b' = b
    · subst right
      simp
    · rw [update_of_ne right]
      simp only [reduceCtorEq, false_iff]
      intro other
      exact right (Option.some.inj (((inverse a' b').mpr other).symm.trans linked))
  · rw [update_of_ne left]
    by_cases right : b' = b
    · subst right
      rw [update_self]
      simp only [reduceCtorEq, iff_false]
      exact fun other => left (inverse.left_unique other linked)
    · rw [update_of_ne right]
      exact inverse a' b'

lemma Inverse.link (inverse : Inverse f g) (left : f a = none) (right : g b = none) :
    Inverse (update f a (some b)) (update g b (some a)) := by
  intro a' b'
  by_cases here : a' = a
  · subst here
    rw [update_self]
    by_cases there : b' = b
    · subst there
      simp
    · rw [update_of_ne there, ← inverse a' b', left]
      simp [Ne.symm there]
  · rw [update_of_ne here]
    by_cases there : b' = b
    · subst there
      rw [update_self, inverse a' b', right]
      simp [Ne.symm here]
    · rw [update_of_ne there]
      exact inverse a' b'

end Matching

/-!
## Write-back caches over a memory

A cache holds some of the values of a memory, each one clean or dirty. What the two say together
is the cached value where there is one, and the value in memory elsewhere. Writing to the cache
changes one value. Taking a line out changes none if a dirty line is written back as it was.
-/

namespace Writeback

open Function

variable {K D : Type*}

structure Line (D : Type*) where
  dirty : Bool
  data : D

structure Store (K D : Type*) where
  cache : K → Option (Line D)
  memory : K → D

namespace Store

variable (s : Store K D) {k v : K} {line : Line D}

def value (k : K) : D := ((s.cache k).map Line.data).getD (s.memory k)

def Clean : Prop := ∀ k line, s.cache k = some line → line.dirty = false → line.data = s.memory k

variable {s} in
lemma value_of_cached (cached : s.cache k = some line) : s.value k = line.data := by
  rw [value, cached, Option.map_some, Option.getD_some]

variable {s} in
lemma value_of_uncached (uncached : s.cache k = none) : s.value k = s.memory k := by
  rw [value, uncached, Option.map_none, Option.getD_none]

variable [DecidableEq K]

def write (k : K) (line : Line D) : Store K D :=
  { s with cache := update s.cache k (some line) }

def evict (v : K) (line : Line D) (value : D) : Store K D where
  cache := update s.cache v none
  memory := if line.dirty = true then update s.memory v value else s.memory

lemma value_write : (s.write k line).value = update s.value k line.data := by
  funext other
  by_cases here : other = k
  · subst here
    simp [value, write]
  · simp [value, write, here]

variable {s}

lemma Clean.write (clean : s.Clean) (agrees : line.dirty = false → line.data = s.memory k) :
    (s.write k line).Clean := by
  intro other found cached
  change update s.cache k (some line) other = some found at cached
  by_cases here : other = k
  · subst here
    rw [update_self] at cached
    cases cached
    exact agrees
  · rw [update_of_ne here] at cached
    exact clean other found cached

lemma memory_evict_of_ne {value : D} (different : k ≠ v) :
    (s.evict v line value).memory k = s.memory k := by
  rw [evict]
  split
  · exact update_of_ne different _ _
  · rfl

lemma Clean.evict (clean : s.Clean) (value : D) : (s.evict v line value).Clean := by
  intro other found cached
  change update s.cache v none other = some found at cached
  by_cases here : other = v
  · subst here
    rw [update_self] at cached
    cases cached
  · rw [update_of_ne here] at cached
    rw [memory_evict_of_ne here]
    exact clean other found cached

lemma value_evict (clean : s.Clean) (cached : s.cache v = some line) (value : D) :
    (s.evict v line value).value =
      update s.value v (if line.dirty = true then value else line.data) := by
  funext other
  by_cases here : other = v
  · subst here
    rw [value_of_uncached (update_self _ _ _), update_self, evict]
    cases dirty : line.dirty with
    | true => simp
    | false => simpa using (clean other line cached dirty).symm
  · rw [update_of_ne here, Store.value, memory_evict_of_ne here, Store.value]
    change ((update s.cache v none other).map Line.data).getD _ = _
    rw [update_of_ne here]

end Store

end Writeback

/-!
## Displaced keys

A table keeps every key in one of the slots that are the key's home. A key may be displaced from its
slot by another one of the same home, and is then on a list until it is released. Slots that were
used once are never free again, so a displaced key finds no free slot in its home, and no key is in
two places.
-/

namespace Displaced

open Function List

variable {ι α : Type*}

structure Table (ι α : Type*) where
  slots : ι → α
  displaced : List α

/-- What holds of a table whose free slots have the key `free`. -/
structure Sound (free : α) (home : α → ι → Prop) (t : Table ι α) : Prop where
  homed : ∀ i, t.slots i ≠ free → home (t.slots i) i
  once : ∀ i j, t.slots i ≠ free → t.slots i = t.slots j → i = j
  live : free ∉ t.displaced
  nodup : t.displaced.Nodup
  apart : ∀ i, t.slots i ∉ t.displaced
  full : ∀ a ∈ t.displaced, ∀ i, home a i → t.slots i ≠ free

variable {free a : α} {home : α → ι → Prop} {t : Table ι α} {i : ι}

lemma Sound.missing (sound : Sound free home t) (valid : a ≠ free)
    (missing : ∀ j, home a j → t.slots j ≠ a) (j : ι) : t.slots j ≠ a := by
  intro same
  have homed := sound.homed j (same ▸ valid)
  rw [same] at homed
  exact missing j homed same

variable [DecidableEq ι]

lemma Sound.once_update (sound : Sound free home t) (absent : ∀ j, t.slots j ≠ a) (j k : ι)
    (used : update t.slots i a j ≠ free)
    (same : update t.slots i a j = update t.slots i a k) : j = k := by
  by_cases hj : j = i
  · by_cases hk : k = i
    · rw [hj, hk]
    · rw [hj, update_self, update_of_ne hk] at same
      exact absurd same.symm (absent k)
  · rw [update_of_ne hj] at used same
    by_cases hk : k = i
    · rw [hk, update_self] at same
      exact absurd same (absent j)
    · rw [update_of_ne hk] at same
      exact sound.once j k used same

lemma Sound.homed_update (sound : Sound free home t) (at_home : home a i) (j : ι)
    (used : update t.slots i a j ≠ free) : home (update t.slots i a j) j := by
  by_cases hj : j = i
  · rw [hj, update_self]
    exact at_home
  · rw [update_of_ne hj] at used ⊢
    exact sound.homed j used

lemma update_ne_free (valid : a ≠ free) {j : ι} (used : t.slots j ≠ free) :
    update t.slots i a j ≠ free := by
  by_cases hj : j = i
  · rw [hj, update_self]
    exact valid
  · rw [update_of_ne hj]
    exact used

lemma Sound.claim (sound : Sound free home t) (valid : a ≠ free) (at_home : home a i)
    (unused : t.slots i = free) (missing : ∀ j, home a j → t.slots j ≠ a) :
    Sound free home ⟨update t.slots i a, t.displaced⟩ := by
  refine ⟨sound.homed_update at_home, sound.once_update (sound.missing valid missing), sound.live,
    sound.nodup, ?_, ?_⟩
  · intro j
    by_cases hj : j = i
    · simp only [hj, update_self]
      exact fun listed => sound.full a listed i at_home unused
    · simp only [update_of_ne hj]
      exact sound.apart j
  · intro b listed j atHome
    exact update_ne_free valid (sound.full b listed j atHome)

lemma Sound.displace (sound : Sound free home t) (valid : a ≠ free) (at_home : home a i)
    (same_home : ∀ j, home (t.slots i) j → home a j) (missing : ∀ j, home a j → t.slots j ≠ a)
    (unlisted : a ∉ t.displaced) (full : ∀ j, home a j → t.slots j ≠ free) :
    Sound free home ⟨update t.slots i a, t.displaced ++ [t.slots i]⟩ := by
  refine ⟨sound.homed_update at_home, sound.once_update (sound.missing valid missing), ?_, ?_, ?_,
    ?_⟩
  · rw [mem_append, mem_singleton]
    exact not_or.mpr ⟨sound.live, fun same => full i at_home same.symm⟩
  · rw [nodup_append_comm, singleton_append, nodup_cons]
    exact ⟨sound.apart i, sound.nodup⟩
  · intro j
    rw [mem_append, mem_singleton]
    by_cases hj : j = i
    · simp only [hj, update_self]
      exact not_or.mpr ⟨unlisted, fun same => missing i at_home same.symm⟩
    · simp only [update_of_ne hj]
      refine not_or.mpr ⟨sound.apart j, fun same => hj ?_⟩
      exact (sound.once i j (full i at_home) same.symm).symm
  · intro b listed j atHome
    refine update_ne_free valid ?_
    rcases mem_append.mp listed with before | now
    · exact sound.full b before j atHome
    · rw [mem_singleton.mp now] at atHome
      exact full j (same_home j atHome)

omit [DecidableEq ι] in
lemma Sound.release [DecidableEq α] (sound : Sound free home t) (a : α) :
    Sound free home ⟨t.slots, t.displaced.erase a⟩ where
  homed := sound.homed
  once := sound.once
  live := fun listed => sound.live (mem_of_mem_erase listed)
  nodup := sound.nodup.erase a
  apart := fun i listed => sound.apart i (mem_of_mem_erase listed)
  full := fun b listed => sound.full b (mem_of_mem_erase listed)

end Displaced
